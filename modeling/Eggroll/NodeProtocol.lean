import Eggroll.NodeHeartbeat

/-! How a node comes to its id. A node manager (`NodeResourceManager.java`, `NodeManagerMeta.java`)
sends heartbeats, the cluster manager answers them from the table of nodes, and the node keeps the
id that it is told in a file. Heartbeats and answers may overtake each other and get lost, nodes
and the cluster manager may stop at any moment and start again. -/
namespace Eggroll.NodeProtocol
open Library
open NodeHeartbeat hiding State Act system serve View orderly contract call

/-- The ids and the addresses of the rows of `server_node`. -/
abbrev Rows := List (Int × ErEndpoint)

def address (row : ServerNode) : ErEndpoint := ⟨row.host,row.port⟩

def idsAt (rows : Rows) (endpoint : ErEndpoint) : List Int :=
  (rows.filter fun row => row.2 = endpoint).map Prod.fst

def ids (rows : Rows) : List Int := rows.map Prod.fst

/-- The database may fail at any call and else answers from the table. A row that is saved without
an id gets a new one, and there are no two rows with one id. -/
def agrees (rows : Rows) (env : Env) : Op → Bool
  | .getFromCache id => env.fails || env.known == decide (id ∈ ids rows)
  | .list row => env.fails || decide (env.found.Perm (idsAt rows (address row)))
  | .save row => env.fails || decide (0 < env.generated ∧ (∀ id ∈ row.serverNodeId, env.generated = id) ∧
      env.generated ∉ ids rows)
  | _ => true

def effect (rows : Rows) (env : Env) : Op → Rows
  | .save row => if env.fails then rows else rows ++ [(env.generated,address row)]
  | .updateById row =>
    if env.fails then rows else rows.map fun r => if row.serverNodeId = some r.1 then (r.1,address row) else r
  | _ => rows

/-- What a heartbeat sees: its own node object, `nodeHeartbeatMap`, and the table. -/
structure View where
  own : NodeHeartbeat.View
  rows : Rows

def serve : Service View Op Ans Failure Env := fun s op env =>
  if agrees s.rows env op then
    (NodeHeartbeat.serve s.own op env).map fun served => (⟨served.1,effect s.rows env op⟩,served.2)
  else none

/-- `NodeManagerMeta` and the number of the last heartbeat in a process of the node manager.
`started` are the heartbeat threads that have read nothing yet, `looked` the statuses read by those
that have not sent, `learned` the ids of answers that found the node new and have not been set, and
`told` are the threads that have set the id and not yet written it to the file. -/
structure NodeManager where
  life : Nat
  status : String
  serverNodeId : Int
  seq : Int
  started : Nat
  looked : List String
  learned : List Int
  told : Nat
deriving Repr, DecidableEq

abbrev MetaFile := Option (ErEndpoint × Int)

/-- The file may be there, be broken or be as it was when writing it is over. -/
inductive Written
  | whole
  | broken
  | kept
deriving Repr, DecidableEq

def loadNodeManagerMetaFromFile (own : ErEndpoint) (file : MetaFile) : Int :=
  match file with
  | some (endpoint,id) => if endpoint = own then id else -1
  | none => -1

def refreshServerNodeMetaIntoFile (own : ErEndpoint) (id : Int) (file : MetaFile) : Written → MetaFile
  | .whole => some (own,id)
  | .broken => none
  | .kept => file

namespace NodeManager

def run (own : ErEndpoint) (file : MetaFile) (life : Nat) : NodeManager where
  life := life
  status := "INIT"
  serverNodeId := loadNodeManagerMetaFromFile own file
  seq := 0
  started := 0
  looked := []
  learned := []
  told := 0

def tryNodeHeartbeat (own : ErEndpoint) (status : String) (resources : List NodeResources.ErResource)
    (m : NodeManager) : ErNodeHeartbeat where
  id := m.seq
  node := {
    id := m.serverNodeId
    name := ""
    clusterId := 0
    endpoint := own
    nodeType := "NODE_MANAGER"
    status := status
    resources := resources }

def answered (id : Int) (m : NodeManager) : NodeManager :=
  if m.status = "INIT" ∧ id ≠ -1 then { m with learned := m.learned ++ [id] } else m

end NodeManager

structure Request (N : Type) where
  node : N
  life : Nat
  heartbeat : ErNodeHeartbeat
deriving Repr, DecidableEq

structure Response (N : Type) where
  node : N
  life : Nat
  id : Int
deriving Repr, DecidableEq

/-- Where nodes listen, and where they keep their files. -/
structure Deployment (N D : Type) where
  endpoint : N → ErEndpoint
  dataDir : N → D

/-- `client` is the process whose heartbeat a thread handles and `returned` whether the body has
ended without an exception; `watched` is what `checkNodeHeartBeat` has read of the table. -/
structure State (T N D : Type) where
  server : NodeHeartbeat.State T
  client : T → Option (N × Nat)
  returned : T → Bool
  rows : Rows
  watched : Rows
  nodes : N → NodeManager
  files : D → MetaFile
  requests : List (Request N)
  responses : List (Response N)

/-- What `node` does, its threads, the cluster manager and its threads. -/
inductive Act (T N : Type)
  | run (node : N)
  | heartBeatThread (node : N)
  | look (node : N)
  | send (node : N) (thread : Nat) (resources : List NodeResources.ErResource)
  | shutdownHook (node : N)
  | answer (response : Nat)
  | learn (node : N) (thread : Nat)
  | refresh (node : N) (written : Written)
  | receive (t : T) (request : Nat)
  | advance (t : T) (env : Env)
  | evict (key : Int)
  | expire (key : Int)
  | restart
  | readNodes
  | markLoss (row : Nat)
deriving Repr, DecidableEq

section
variable {T N D : Type} [DecidableEq T] [DecidableEq N] [DecidableEq D]

namespace State

def init (d : Deployment N D) : State T N D where
  server := .init
  client := fun _ => none
  returned := fun _ => false
  rows := []
  watched := []
  nodes := fun n => .run (d.endpoint n) none 0
  files := fun _ => none
  requests := []
  responses := []

def setNode (s : State T N D) (n : N) (m : NodeManager) : State T N D :=
  { s with nodes := Function.update s.nodes n m }

/-- The answer to the heartbeat of a thread, unless the body or `unLock` has thrown. -/
def respond (s : State T N D) (t : T) : List (Response N) :=
  match s.client t with
  | some (node,life) => if s.returned t ∧ s.server.cache.thrown t = none then [⟨node,life,s.server.ids t⟩] else []
  | none => []

def advance (s : State T N D) (t : T) (env : Env) : Option (State T N D) :=
  match s.server.place t with
  | .inside _ (.call op _) =>
    if agrees s.rows env op then
      (s.server.advance t env).map fun server => { s with server := server, rows := effect s.rows env op }
    else none
  | .inside _ (.ended result) => (s.server.advance t env).map fun server =>
      { s with server := server, returned := Function.update s.returned t result.toBool }
  | .unlocking _ => (s.server.advance t env).map fun server =>
      { s with
        server := server
        responses := s.responses ++ if s.server.cache.pc t = .idle then s.respond t else [] }
  | _ => (s.server.advance t env).map fun server => { s with server := server }

end State

/-- `updateByErNode` of `checkNodeHeartBeat`, with the row that was read. -/
def markLoss (rows : Rows) (row : Int × ErEndpoint) : Rows :=
  effect rows {} (.updateById { serverNodeId := some row.1, host := row.2.host, port := row.2.port, status := some "LOSS" })

def protocol (d : Deployment N D) : System (State T N D) (Act T N) where
  start s := s = .init d
  step s
    | .run n => some (s.setNode n (.run (d.endpoint n) (s.files (d.dataDir n)) ((s.nodes n).life + 1)))
    | .heartBeatThread n =>
      let m := s.nodes n
      some (s.setNode n { m with seq := m.seq + 1, started := m.started + 1 })
    | .look n =>
      let m := s.nodes n
      if m.started = 0 then none
      else some (s.setNode n { m with started := m.started - 1, looked := m.looked ++ [m.status] })
    | .send n thread resources =>
      let m := s.nodes n
      m.looked[thread]?.map fun status =>
        { s.setNode n { m with looked := m.looked.eraseIdx thread } with
          requests := s.requests ++ [⟨n,m.life,m.tryNodeHeartbeat (d.endpoint n) status resources⟩] }
    | .shutdownHook n =>
      let m := s.nodes n
      some (s.setNode n { m with status := "LOSS", looked := m.looked ++ ["LOSS"] })
    | .answer i => s.responses[i]?.bind fun response =>
      let m := s.nodes response.node
      if response.life = m.life then
        some { s.setNode response.node (m.answered response.id) with responses := s.responses.eraseIdx i }
      else none
    | .learn n thread =>
      let m := s.nodes n
      m.learned[thread]?.map fun id =>
        s.setNode n { m with serverNodeId := id, learned := m.learned.eraseIdx thread, told := m.told + 1 }
    | .refresh n written =>
      let m := s.nodes n
      if m.told = 0 then none
      else some { s.setNode n { m with told := m.told - 1, status := "HEALTHY" } with
        files := Function.update s.files (d.dataDir n)
          (refreshServerNodeMetaIntoFile (d.endpoint n) m.serverNodeId (s.files (d.dataDir n)) written) }
    | .receive t i => s.requests[i]?.bind fun request =>
      (NodeHeartbeat.system.step s.server (.heartbeat t request.heartbeat)).map fun server =>
        { s with
          server := server
          client := Function.update s.client t (some (request.node,request.life))
          requests := s.requests.eraseIdx i }
    | .advance t env => s.advance t env
    | .evict key => (NodeHeartbeat.system.step s.server (.evict key)).map fun server => { s with server := server }
    | .expire key => (NodeHeartbeat.system.step s.server (.expire key)).map fun server => { s with server := server }
    | .restart => some { s with server := .init, watched := [] }
    | .readNodes => some { s with watched := s.rows }
    | .markLoss i => s.watched[i]?.map fun row => { s with rows := markLoss s.rows row }

/-- In `lock` for a lock that another thread owns. -/
def waits (s : NodeHeartbeat.State T) (t : T) : Bool :=
  match s.cache.pc t with
  | .acquire _ lock => (s.cache.locks lock).owner.any (· ≠ t)
  | _ => false

/-- A heartbeat uses the lock of its key, but for one of a new node that waits for a thread which
has left the lock of `-1` behind. -/
def busy (s : NodeHeartbeat.State T) (key : Int) (t : T) : Bool :=
  match s.place t with
  | .idle => false
  | .locking k _ => k = key && !(key = -1 && waits s t)
  | .inside k _ | .unlocking k => k = key

/-- The cache of the locks drops none that a heartbeat uses. -/
def orderly [Fintype T] (s : State T N D) : Act T N → Bool
  | .evict key | .expire key => decide (∀ t, busy s.server key t = false)
  | _ => true

end
end Eggroll.NodeProtocol
