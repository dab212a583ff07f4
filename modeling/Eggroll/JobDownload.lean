import Mathlib.Data.List.Dedup
import Mathlib.Data.List.Forall2
import Mathlib.Data.List.Sort
import Eggroll.Library.Grouping

/-! The download of what the containers of a job have written: `handleJobDownload`
(`JobServiceHandler.java`) asks each node for its ranks and puts the answers together,
`downloadContainers` (`ContainersServiceHandler.java`) answers for a node. The class of the request
that goes between them cannot be made by the node, and its message leaves the ranks out. -/
namespace Eggroll.JobDownload
open Library

inductive Raised
  | illegalArgument (message : String)
  | instantiation
  | nullPointer
  | unavailable
  | sql
deriving Repr, DecidableEq

inductive ContentType
  | ALL
  | MODELS
  | LOGS
  | RESULT
deriving Repr, DecidableEq

/-- A directory of a container below its node's data directory. -/
structure Directory where
  sessionId : String
  rank : Int
  sub : Option String := none
deriving Repr, DecidableEq

structure ContainerContent where
  rank : Int := 0
  content : List UInt8
  compressMethod : String
deriving Repr, DecidableEq

structure DownloadJobRequest where
  sessionId : String
  ranks : List Int
  compressMethod : String
  compressLevel : Int := 1
  contentType : ContentType
deriving Repr, DecidableEq

structure SessionRanks where
  containerId : Int
  serverNodeId : Int
  globalRank : Int
  localRank : Int
deriving Repr, DecidableEq

/-- A node manager: its directories, what it makes of them and whether calls get through. -/
structure NodeManager where
  exists_ : Directory → Bool
  zip : Directory → Int → Except Raised (List UInt8)
  reachable : Bool

/-- What a request meets: the rows of the session and the nodes in the cache. -/
structure Cluster where
  sessionRanks : Except Raised (List SessionRanks)
  getByIdFromCache : Int → Option NodeManager

/-- What a node is asked; `none` stands for null. -/
structure DownloadContainersRequest where
  sessionId : Option String := none
  compressMethod : Option String := none
  ranks : Option (List Int) := none
  compressLevel : Int := 0
  contentType : Option ContentType := none
deriving Repr, DecidableEq

/-- The message of `containers.proto`, which has identifiers of containers and no ranks. -/
structure DownloadContainersProto where
  sessionId : String := ""
  containerIds : List Int := []
  compressMethod : String := ""
  compressLevel : Int := 0
  contentType : ContentType := .ALL
deriving Repr, DecidableEq

def DownloadContainersRequest.toProto (request : DownloadContainersRequest) : DownloadContainersProto where
  sessionId := request.sessionId.getD ""
  compressMethod := request.compressMethod.getD ""
  compressLevel := request.compressLevel
  contentType := request.contentType.getD .ALL

def DownloadContainersRequest.deserialize (request : DownloadContainersRequest) (src : DownloadContainersProto) :
    DownloadContainersRequest :=
  { request with
    sessionId := some src.sessionId
    compressMethod := some src.compressMethod
    compressLevel := src.compressLevel
    contentType := some src.contentType }

/-- `Class.newInstance` of the request: its only constructor has arguments. -/
def newInstance : Except Raised DownloadContainersRequest := .error .instantiation

/-- The message has no rank either, and an empty list of contents is read back as null. -/
structure DownloadContainersResponse where
  sessionId : String
  containerContents : Option (List ContainerContent)
deriving Repr, DecidableEq

def received (contents : List ContainerContent) : Option (List ContainerContent) :=
  if contents = [] then none else some (contents.map fun c => { content := c.content, compressMethod := c.compressMethod })

def targetDir (sessionId : String) (contentType : ContentType) (rank : Int) : Except Raised Directory :=
  match contentType with
  | .ALL => .ok ⟨sessionId,rank,none⟩
  | .MODELS => .ok ⟨sessionId,rank,some "models"⟩
  | .LOGS => .ok ⟨sessionId,rank,some "logs"⟩
  | .RESULT => .error (.illegalArgument "unsupported container content type: RESULT")

def containerContent (node : NodeManager) (sessionId compressMethod : String) (level : Int) (contentType : ContentType)
    (rank : Int) : Except Raised ContainerContent := do
  let dir ← targetDir sessionId contentType rank
  if compressMethod = "zip" then
    if node.exists_ dir then return ⟨rank,← node.zip dir level,compressMethod⟩
    else return ⟨rank,[],compressMethod⟩
  else .error (.illegalArgument ("compress method not supported: " ++ compressMethod))

/-- A call on null. -/
def notNull {α : Type} : Option α → Except Raised α
  | some value => .ok value
  | none => .error .nullPointer

def downloadContainers (node : NodeManager) (request : DownloadContainersRequest) :
    Except Raised DownloadContainersResponse := do
  let ranks ← notNull request.ranks
  let sessionId ← notNull request.sessionId
  let compressMethod ← notNull request.compressMethod
  let contentType ← notNull request.contentType
  let contents ← ranks.mapM (containerContent node sessionId compressMethod request.compressLevel contentType)
  return ⟨sessionId,received contents⟩

/-- `Dispatcher.dispatch` on the node: the message is read into a new instance of the request. -/
def dispatch (newInstance : Except Raised DownloadContainersRequest) (node : NodeManager)
    (data : DownloadContainersProto) : Except Raised DownloadContainersResponse := do
  let rpcMessage ← newInstance
  downloadContainers node (rpcMessage.deserialize data)

structure SessionRanksTemp where
  serverNodeId : Int
  containerId : Int
  globalRank : Int
  localRank : Int
  index : ℕ
deriving Repr, DecidableEq

/-- The index of a rank in the request, none for -1; without a list every rank is asked for. -/
def index (ranksList : List Int) (globalRank : Int) : Option ℕ :=
  if ranksList = [] then globalRank.toNat?
  else if globalRank ∈ ranksList then some (ranksList.idxOf globalRank) else none

def temp (ranksList : List Int) (row : SessionRanks) : Option SessionRanksTemp :=
  (index ranksList row.globalRank).map fun index =>
    ⟨row.serverNodeId,row.containerId,row.globalRank,row.localRank,index⟩

/-- What is grouped into `rankMap`. -/
def temps (request : DownloadJobRequest) (rows : List SessionRanks) : List (Int × SessionRanksTemp) :=
  (rows.filterMap (temp request.ranks)).map fun t => (t.serverNodeId,t)

def callNode (cluster : Cluster) (nodeId : Int) (request : DownloadContainersRequest) :
    Except Raised DownloadContainersResponse :=
  match cluster.getByIdFromCache nodeId with
  | some node => if node.reachable then dispatch newInstance node request.toProto else .error .unavailable
  | none => .error .nullPointer

structure IndexContentsTemp where
  indexes : List ℕ
  containerContents : Option (List ContainerContent)

/-- The contents of a node with the indexes of its ranks. When the call throws, the stream is null,
which a `flatMap` takes for an empty one. -/
def fetch (cluster : Cluster) (request : DownloadJobRequest) (entry : Int × List SessionRanksTemp) :
    Option IndexContentsTemp :=
  let indexes := entry.2.map SessionRanksTemp.index
  let globalRanks := entry.2.map SessionRanksTemp.globalRank
  match callNode cluster entry.1 ⟨some request.sessionId,some request.compressMethod,some globalRanks,
      request.compressLevel,some request.contentType⟩ with
  | .ok response => some ⟨indexes,response.containerContents⟩
  | .error _ => none

def indexed (temp : IndexContentsTemp) : Except Raised (List (ℕ × ContainerContent)) := do
  return temp.indexes.zip (← notNull temp.containerContents)

/-- `rankMap` gives its entries in whatever order `order` says. -/
def handleJobDownload (cluster : Cluster) (request : DownloadJobRequest)
    (order : ∀ pairs : List (Int × SessionRanksTemp), Listing pairs) : Except Raised (List ContainerContent) := do
  let rows ← cluster.sessionRanks
  let rankMap := order (temps request rows)
  let indexContents ← (rankMap.entries.filterMap (fetch cluster request)).mapM indexed
  let collect := indexContents.flatten.mergeSort fun p q => p.1 ≤ q.1
  return collect.map Prod.snd

/-- The ranks a request asks for, in their order: without a list, all that the session has. -/
def requested (request : DownloadJobRequest) (rows : List SessionRanks) : List Int :=
  if request.ranks = [] then
    ((rows.map SessionRanks.globalRank).filter (0 ≤ ·)).dedup.mergeSort (· ≤ ·)
  else request.ranks

def Holds (cluster : Cluster) (request : DownloadJobRequest) (rows : List SessionRanks) (rank : Int)
    (content : ContainerContent) : Prop :=
  ∃ row ∈ rows, row.globalRank = rank ∧ ∃ node, cluster.getByIdFromCache row.serverNodeId = some node ∧
    ∃ own, containerContent node request.sessionId request.compressMethod request.compressLevel request.contentType rank =
      .ok own ∧ content.content = own.content ∧ content.compressMethod = own.compressMethod

/-- An exception, or the content of each rank at its position and nothing else. -/
def Aligned (cluster : Cluster) (request : DownloadJobRequest) : Except Raised (List ContainerContent) → Prop
  | .error _ => True
  | .ok contents => ∃ rows, cluster.sessionRanks = .ok rows ∧
      List.Forall₂ (Holds cluster request rows) (requested request rows) contents

private theorem dispatch_fails {fresh : Except Raised DownloadContainersRequest}
    (unset : ∀ request, fresh = .ok request → request.ranks = none) (node : NodeManager) (data : DownloadContainersProto) :
    ∃ e, dispatch fresh node data = .error e := by
  cases fresh with
  | error e => exact ⟨e,rfl⟩
  | ok request =>
    have ranks : (request.deserialize data).ranks = none := unset request rfl
    refine ⟨.nullPointer,?_⟩
    change downloadContainers node (request.deserialize data) = _
    rw [downloadContainers,ranks]
    rfl

private theorem callNode_fails (cluster : Cluster) (nodeId : Int) (request : DownloadContainersRequest) :
    ∃ e, callNode cluster nodeId request = .error e := by
  unfold callNode
  split
  · split
    · exact dispatch_fails (fun _ made => by cases made) _ _
    · exact ⟨_,rfl⟩
  · exact ⟨_,rfl⟩

private theorem fetch_none (cluster : Cluster) (request : DownloadJobRequest) (entry : Int × List SessionRanksTemp) :
    fetch cluster request entry = none := by
  obtain ⟨e,failed⟩ := callNode_fails cluster entry.1 ⟨some request.sessionId,some request.compressMethod,
    some (entry.2.map SessionRanksTemp.globalRank),request.compressLevel,some request.contentType⟩
  simp only [fetch,failed]

private theorem download_nothing {cluster : Cluster} {request : DownloadJobRequest}
    (order : ∀ pairs : List (Int × SessionRanksTemp), Listing pairs) {rows : List SessionRanks}
    (listed : cluster.sessionRanks = .ok rows) : handleJobDownload cluster request order = .ok [] := by
  have none_fetched : (order (temps request rows)).entries.filterMap (fetch cluster request) = [] :=
    List.filterMap_eq_nil_iff.mpr fun entry _ => fetch_none cluster request entry
  rw [handleJobDownload,listed]
  change ((order (temps request rows)).entries.filterMap (fetch cluster request)).mapM indexed >>= _ = _
  rw [none_fetched,List.mapM_nil]
  change Except.ok ((List.mergeSort [] _).map Prod.snd) = _
  rw [List.mergeSort_nil,List.map_nil]

/-- A download is aligned exactly when the rows of the session cannot be read or none of its ranks is
asked for. -/
theorem download_aligned (cluster : Cluster) (request : DownloadJobRequest)
    (order : ∀ pairs : List (Int × SessionRanksTemp), Listing pairs) :
    Aligned cluster request (handleJobDownload cluster request order) ↔
      ∀ rows, cluster.sessionRanks = .ok rows → requested request rows = [] := by
  cases listed : cluster.sessionRanks with
  | error e =>
    rw [handleJobDownload,listed]
    exact iff_of_true trivial fun rows given => by cases given
  | ok rows =>
    rw [download_nothing order listed,Aligned]
    constructor
    · rintro ⟨_,given,aligned⟩ _ ⟨⟩
      rw [listed] at given
      cases given
      exact List.forall₂_nil_right_iff.mp aligned
    · intro nothing
      refine ⟨rows,listed,?_⟩
      rw [nothing rows rfl]
      exact .nil

/-- Both nodes are up and the answer is empty. -/
theorem download_empty : ∃ cluster request, request.ranks.Nodup ∧
    ∀ order, handleJobDownload cluster request order = .ok [] ∧
      ¬ Aligned cluster request (handleJobDownload cluster request order) := by
  let cluster : Cluster :=
    { sessionRanks := .ok [⟨10,1,0,0⟩,⟨11,2,1,0⟩]
      getByIdFromCache := fun _ => some ⟨fun _ => true,fun _ _ => .ok [80],true⟩ }
  let request : DownloadJobRequest :=
    { sessionId := "session", ranks := [1,0], compressMethod := "zip", contentType := .MODELS }
  refine ⟨cluster,request,by decide,fun order => ?_⟩
  have nothing : handleJobDownload cluster request order = .ok [] := download_nothing order rfl
  refine ⟨nothing,?_⟩
  rw [nothing]
  rintro ⟨rows,-,aligned⟩
  exact absurd aligned.length_eq (by simp [requested,request])

end Eggroll.JobDownload
