import Mathlib.Data.List.Sort
import Eggroll.Library.Program

/-! Stores in the cluster manager's metadata (`StoreCrudOperator.java` and the tables of
`create-eggroll-meta-tables.sql`): looking a store up, creating it and deleting it, call
by call into the database. -/
namespace Eggroll.StoreCrud
open Library

structure ErStoreLocator where
  id : Int
  storeType : String
  nameSpace : String
  name : String
  path : String
  totalPartitions : Int
  keySerdesType : Int
  valueSerdesType : Int
  partitionerType : Int
deriving Repr, DecidableEq

structure ErProcessor where
  id : Int
  serverNodeId : Int
  tag : String
deriving Repr, DecidableEq

structure ErPartition where
  id : Int
  storeLocator : ErStoreLocator
  processor : ErProcessor
  rankInNode : Int
deriving Repr, DecidableEq

abbrev Options := List (String × String)

structure ErStore where
  storeLocator : ErStoreLocator
  partitions : List ErPartition
  options : Options
deriving Repr, DecidableEq

inductive Status
  | NORMAL
  | DELETED
deriving Repr, DecidableEq

structure StoreLocator where
  storeLocatorId : ℕ
  storeType : String
  nameSpace : String
  name : String
  path : String
  totalPartitions : Int
  keySerdesType : Int
  valueSerdesType : Int
  partitionerType : Int
  status : Status
deriving Repr, DecidableEq

structure StorePartition where
  storeLocatorId : ℕ
  nodeId : Int
  partitionId : Int
deriving Repr, DecidableEq

structure StoreOption where
  storeLocatorId : ℕ
  name : String
  data : String
deriving Repr, DecidableEq

/-- The tables in the order of their ids, the next id of a locator, and the operator's
`nodeIdToNode`. -/
structure Metadata where
  locators : List StoreLocator
  partitions : List StorePartition
  options : List StoreOption
  nextId : ℕ
  nodeIdToNode : List Int
deriving Repr, DecidableEq

/-- What `idx_u_store_locator_ns_n` keeps of a row. -/
def indexKey (nameSpace name : String) : List Char × List Char :=
  (nameSpace.toList.take 120,name.toList.take 640)

def StoreLocator.key (row : StoreLocator) : List Char × List Char := indexKey row.nameSpace row.name

def Metadata.partitionsOf (s : Metadata) (storeLocatorId : ℕ) : List StorePartition :=
  s.partitions.filter fun row => row.storeLocatorId = storeLocatorId

inductive Op
  | lock (key : String)
  | unLock (key : String)
  | listLocators (nameSpace name : String) (storeType : Option String)
  | listPartitions (storeLocatorId : ℕ)
  | missingNodes (nodeIds : List Int)
  | listNodes
  | listNodesIn (nodeIds : List Int)
  | putNodes (nodeIds : List Int)
  | listOptions (storeLocatorId : ℕ)
  | saveLocator (row : StoreLocator)
  | savePartition (row : StorePartition)
  | saveOption (row : StoreOption)
  | currentTimeMillis
  | deleteAll (nameSpace : String) (storeType : Option String) (millis : ℕ)
  | deleteLocator (storeLocatorId : ℕ) (name : String)
deriving Repr, DecidableEq

abbrev Ans : Op → Type
  | .listLocators _ _ _ => List StoreLocator
  | .listPartitions _ => List StorePartition
  | .missingNodes _ | .listNodes | .listNodesIn _ => List Int
  | .listOptions _ => List StoreOption
  | .saveLocator _ => Option ℕ
  | .savePartition _ | .saveOption _ => Bool
  | .currentTimeMillis => ℕ
  | .lock _ | .unLock _ | .putNodes _ | .deleteAll _ _ _ | .deleteLocator _ _ => Unit

/-- What is thrown: by the database, as `CrudException`, as `IllegalStateException` (no
partition, no valid node) or as `RuntimeException` (no health server node). -/
inductive Failure
  | sql
  | duplicate
  | crud (message : String)
  | noPartition (nameSpace name : String)
  | noValidNode
  | noHealthNode
deriving Repr, DecidableEq

inductive Outcome
  | done
  | unsaved
  | failed
deriving Repr, DecidableEq

/-- What a call meets: how the database takes it, the healthy node managers and the time. -/
structure Env where
  outcome : Outcome := .done
  nodes : List Int := []
  millis : ℕ := 0
deriving Repr, DecidableEq

namespace Metadata

def empty : Metadata := ⟨[],[],[],0,[]⟩

def update (s : Metadata) (f : StoreLocator → StoreLocator) : Metadata × Except Failure Unit :=
  if ((s.locators.map f).map StoreLocator.key).Nodup then ({ s with locators := s.locators.map f },.ok ())
  else (s,.error .duplicate)

def saveLocator (s : Metadata) (row : StoreLocator) (outcome : Outcome) : Metadata × Except Failure (Option ℕ) :=
  if outcome = .unsaved then (s,.ok none)
  else if s.locators.any fun other => other.key = row.key then (s,.error .duplicate)
  else ({ s with
    locators := s.locators ++ [{ row with storeLocatorId := s.nextId }]
    nextId := s.nextId + 1 },.ok (some s.nextId))

def answer (s : Metadata) : (op : Op) → Env → Metadata × Except Failure (Ans op)
  | .lock _, _ | .unLock _, _ => (s,.ok ())
  | .listLocators nameSpace name storeType, _ =>
    (s,.ok (s.locators.filter fun row => row.nameSpace = nameSpace ∧ row.name = name ∧
      row.status = .NORMAL ∧ storeType.all (· = row.storeType)))
  | .listPartitions id, _ => (s,.ok (s.partitionsOf id))
  | .missingNodes ids, _ => (s,.ok (ids.filter (· ∉ s.nodeIdToNode)))
  | .listNodes, env => (s,.ok env.nodes)
  | .listNodesIn ids, env => (s,.ok (env.nodes.filter (· ∈ ids)))
  | .putNodes ids, _ => ({ s with nodeIdToNode := s.nodeIdToNode ++ ids },.ok ())
  | .listOptions id, _ => (s,.ok (s.options.filter fun row => row.storeLocatorId = id))
  | .saveLocator row, env => s.saveLocator row env.outcome
  | .savePartition row, env =>
    if env.outcome = .unsaved then (s,.ok false) else ({ s with partitions := s.partitions ++ [row] },.ok true)
  | .saveOption row, env =>
    if env.outcome = .unsaved then (s,.ok false) else ({ s with options := s.options ++ [row] },.ok true)
  | .currentTimeMillis, env => (s,.ok env.millis)
  | .deleteAll nameSpace storeType millis, _ =>
    s.update fun row =>
      if row.nameSpace = nameSpace ∧ row.status = .NORMAL ∧ storeType.all (· = row.storeType) then
        { row with name := row.name ++ toString millis, status := .DELETED }
      else row
  | .deleteLocator id name, _ =>
    s.update fun row => if row.storeLocatorId = id then { row with name := name, status := .DELETED } else row

def fallible : Op → Bool
  | .lock _ | .unLock _ | .missingNodes _ | .putNodes _ | .currentTimeMillis => false
  | _ => true

def serve : Service Metadata Op Ans Failure Env := fun s op env =>
  if fallible op ∧ env.outcome = .failed then some (s,.error .sql) else some (s.answer op env)

end Metadata

abbrev Crud (α : Type) := Program Op Ans Failure α

open Program hiding call

def call (op : Op) : Crud (Ans op) := perform op

/-- `StringUtils.isBlank`. -/
def isBlank (s : String) : Bool := s.toList.all Char.isWhitespace

def put (options : Options) (name data : String) : Options :=
  options.filter (fun option => option.1 ≠ name) ++ [(name,data)]

def StoreLocator.toErStoreLocator (store : StoreLocator) : ErStoreLocator :=
  ⟨store.storeLocatorId,store.storeType,store.nameSpace,store.name,store.path,store.totalPartitions,
    store.keySerdesType,store.valueSerdesType,store.partitionerType⟩

def StoreLocator.toErStore (store : StoreLocator) (rows : List StorePartition) (options : Options) : ErStore :=
  ⟨store.toErStoreLocator,
    rows.map fun p => ⟨p.partitionId,store.toErStoreLocator,⟨p.partitionId,p.nodeId,""⟩,-1⟩,options⟩

/-- The nodes of the partitions that are not in `nodeIdToNode` yet. -/
def lookUpNodes (missingNodeId : List Int) : Crud Unit :=
  if missingNodeId = [] then pure ()
  else do
    let nodeResult ← call (.listNodesIn missingNodeId)
    if nodeResult = [] then raise .noValidNode else call (.putNodes nodeResult)

def doGetStore (input : ErStore) : Crud (Option ErStore) := do
  let storeType := input.storeLocator.storeType
  let storeLocatorResult ← call (.listLocators input.storeLocator.nameSpace input.storeLocator.name
    (if isBlank storeType then none else some storeType))
  match storeLocatorResult with
  | [] => pure none
  | store :: _ => do
    let storePartitionResult ← call (.listPartitions store.storeLocatorId)
    if storePartitionResult = [] then raise (.noPartition input.storeLocator.nameSpace input.storeLocator.name)
    else do
      let missingNodeId ← call (.missingNodes (storePartitionResult.map StorePartition.nodeId))
      lookUpNodes missingNodeId
      let storeOpts ← call (.listOptions store.storeLocatorId)
      pure (some (store.toErStore storePartitionResult
        (storeOpts.foldl (fun options row => put options row.name row.data) input.options)))

def ErStoreLocator.newStoreLocator (input : ErStoreLocator) : StoreLocator :=
  ⟨0,input.storeType,input.nameSpace,input.name,input.path,input.totalPartitions,input.keySerdesType,
    input.valueSerdesType,input.partitionerType,.NORMAL⟩

/-- What 32 bits keep of an `int`. -/
def wrapInt (x : Int) : Int := (x + 2147483648) % 4294967296 - 2147483648

def newTotalPartitions (totalPartitions : Int) (nodesCount : ℕ) : Int :=
  if totalPartitions ≤ 0 then wrapInt (nodesCount * 4) else totalPartitions

def nodeOf (input : ErStore) (serverNodes : List Int) (i : ℕ) : Int :=
  if input.partitions = [] then serverNodes.getD (i % serverNodes.length) 0
  else ((input.partitions.map fun p => p.processor.serverNodeId).getD (i % input.partitions.length) 0)

def nodeRecord (id : ℕ) (input : ErStore) (serverNodes : List Int) (i : ℕ) : StorePartition :=
  ⟨id,nodeOf input serverNodes i,i⟩

def newPartition (input : ErStore) (serverNodes : List Int) (i : ℕ) : ErPartition :=
  ⟨i,input.storeLocator,⟨i,nodeOf input serverNodes i,"binding"⟩,-1⟩

def savePartition (id : ℕ) (input : ErStore) (serverNodes : List Int) (i : ℕ) : Crud ErPartition := do
  let addNodeRecordFlag ← call (.savePartition (nodeRecord id input serverNodes i))
  if addNodeRecordFlag then pure (newPartition input serverNodes i)
  else raise (.crud "Illegal rows affected when creating node: 0")

def savePartitions (id : ℕ) (input : ErStore) (serverNodes : List Int) : List ℕ → Crud (List ErPartition)
  | [] => pure []
  | i :: rest => do
    let partition ← savePartition id input serverNodes i
    let partitions ← savePartitions id input serverNodes rest
    pure (partition :: partitions)

def saveOptions (id : ℕ) : Options → Crud Unit
  | [] => pure ()
  | (name,data) :: rest => do
    let _ ← call (.saveOption ⟨id,name,data⟩)
    saveOptions id rest

def createPartitions (id : ℕ) (input : ErStore) : Crud ErStore := do
  let nodes ← call .listNodes
  let serverNodes := nodes.insertionSort (· ≤ ·)
  let total := newTotalPartitions input.storeLocator.totalPartitions serverNodes.length
  if serverNodes = [] then raise .noHealthNode
  else do
    let newPartitions ← savePartitions id input serverNodes (List.range total.toNat)
    saveOptions id input.options
    pure ⟨input.storeLocator,newPartitions,input.options⟩

def doCreateStore (input : ErStore) : Crud ErStore := do
  let saved ← call (.saveLocator input.storeLocator.newStoreLocator)
  match saved with
  | none => raise (.crud "Illegal rows affected returned when creating store locator: 0")
  | some id => createPartitions id input

def ErStoreLocator.buildKey (locator : ErStoreLocator) : String :=
  locator.nameSpace ++ "_" ++ locator.name ++ "_" ++ locator.storeType

def ErStore.withoutType (input : ErStore) : ErStore :=
  { input with storeLocator := { input.storeLocator with storeType := "" } }

def doGetOrCreateStore (input : ErStore) : Crud ErStore :=
  tryFinally
    (do
      call (.lock input.storeLocator.buildKey)
      let existing ← doGetStore input.withoutType
      match existing with
      | some store => pure store
      | none => doCreateStore input)
    (call (.unLock input.storeLocator.buildKey))

/-- The test for `*` as a store type is the code's own: any other type deletes every store of
the namespace. -/
def doDeleteStore (input : ErStore) : Crud (Option ErStore) :=
  if input.storeLocator.name = "*" then do
    let millis ← call .currentTimeMillis
    call (.deleteAll input.storeLocator.nameSpace
      (if input.storeLocator.storeType = "*" then some input.storeLocator.storeType else none) millis)
    pure (some ⟨input.storeLocator,[],[]⟩)
  else do
    let nodeResult ← call (.listLocators input.storeLocator.nameSpace input.storeLocator.name
      (some input.storeLocator.storeType))
    match nodeResult with
    | [] => pure none
    | nodeRecord :: _ => do
      let millis ← call .currentTimeMillis
      let nameNow := nodeRecord.name ++ "." ++ toString millis
      call (.deleteLocator nodeRecord.storeLocatorId nameNow)
      pure (some ⟨{ input.storeLocator with name := nameNow },[],[]⟩)

end Eggroll.StoreCrud
