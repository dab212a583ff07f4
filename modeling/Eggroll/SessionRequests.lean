import Eggroll.Library.ReentrantLock
import Eggroll.SessionMachine

/-! Concurrent requests for one session id (`getOrCreateSession`) among changes of its status:
every call is one step, and the lock of the id is exclusive. The locks of the other machines
let everybody in, which only adds interleavings. -/
namespace Eggroll.Cluster.SessionCreation
open Library
open Program hiding call

/-- A row that a request has inserted, and the healthy nodes that it had read last. -/
structure Creation where
  request : ℕ
  serverNodes : List ErServerNode
  row : SessionMain
deriving Repr, DecidableEq

/-- A start command that a request has given to the pool. -/
structure StartCommand where
  request : ℕ
  serverNodes : List ErServerNode
  session : ErSessionMeta
deriving Repr, DecidableEq

/-- The tables and the locks of the session ids. The other fields are history: the status that
each look of a request at the session has found, the healthy nodes that it has read last, and
what has been inserted and sent. -/
structure State where
  tables : Tables
  locks : String → ReentrantLock ℕ
  looked : ℕ → List (Option String)
  nodes : ℕ → List ErServerNode
  creations : List Creation
  added : List SessionProcessor
  started : List StartCommand

namespace State

def init (tables : Tables) : State := ⟨tables,fun _ => .new,fun _ => [],fun _ => [],[],[],[]⟩

def setLock (s : State) (key : String) (lock : ReentrantLock ℕ) : State :=
  { s with locks := Function.update s.locks key lock }

def note (s : State) (id : ℕ) (env : Env) : Op → State
  | .getSession sessionId =>
    { s with looked := Function.update s.looked id (s.looked id ++ [(s.tables.session sessionId).map SessionMain.status]) }
  | .listHealthyNodes => { s with nodes := Function.update s.nodes id env.nodes }
  | .saveSession row => { s with creations := s.creations ++ [⟨id,s.nodes id,row⟩] }
  | .saveProcessor row => { s with added := s.added ++ [{ row with processorId := s.tables.nextId }] }
  | .submit (.startContainers serverNodes session) => { s with started := s.started ++ [⟨id,serverNodes,session⟩] }
  | _ => s

/-- The calls of one request. -/
def serve (id : ℕ) : Service State Op Ans Failure Env := fun s op env =>
  match op with
  | .lock .session key => ((s.locks key).lock id).map fun lock => (s.setLock key lock,.ok ())
  | .unLock .session key =>
    match (s.locks key).unlock id with
    | some lock => some (s.setLock key lock,.ok ())
    | none => some (s,.error (.runtime ""))
  | op =>
    match s.tables.serve op env with
    | none => none
    | some (tables,.ok a) => some ({ s.note id env op with tables := tables },.ok a)
    | some (tables,.error e) => some ({ s with tables := tables },.error e)

end State

def sessionLock : Op → Bool
  | .lock .session _ | .unLock .session _ => true
  | _ => false

theorem State.serve_other {id : ℕ} {s : State} {env : Env} {op : Op} (other : sessionLock op = false) :
    State.serve id s op env = match s.tables.serve op env with
      | none => none
      | some (tables,.ok a) => some ({ s.note id env op with tables := tables },.ok a)
      | some (tables,.error e) => some ({ s with tables := tables },.error e) := by
  cases op with
  | lock cache key => cases cache with
    | session => cases other
    | _ => rfl
  | unLock cache key => cases cache with
    | session => cases other
    | _ => rfl
  | _ => rfl

/-- A request for the session, or somebody's change of its status. -/
inductive Request
  | getOrCreate (sessionMeta : ErSessionMeta)
  | change (context : Context) (sessionMeta : ErSessionMeta) (preStateParam desStateParam : String)
deriving Repr, DecidableEq

namespace Request

def program (info : MetaInfo) : Request → Change (Option ErSessionMeta)
  | .getOrCreate sessionMeta => getOrCreateSession info {} sessionMeta
  | .change context sessionMeta pre des => do
    let _ ← (sessionStateMachine info).changeStatus context sessionMeta pre des false
    pure none

/-- Which requests there are: for this id, and changes to the statuses that the code asks for. -/
def concerns (sessionId : String) : Request → Bool
  | .getOrCreate sessionMeta => sessionMeta.id = sessionId
  | .change _ sessionMeta _ des => sessionMeta.id = sessionId ∧ des ∈ ["ACTIVE","KILLED","CLOSED","ERROR"]

/-- The request carries the status `NEW` itself. -/
def carriesNew : Request → Bool
  | .getOrCreate sessionMeta => sessionMeta.status = "NEW"
  | .change _ _ _ _ => true

end Request

abbrev Run := Pool State Request Op Ans Failure (Option ErSessionMeta)

/-- Tables without a session of this id. -/
structure Without (sessionId : String) (tables : Tables) : Prop where
  session : tables.session sessionId = none
  processors : tables.processorsOf sessionId = []
  ids : ∀ row ∈ tables.processors, 0 ≤ row.processorId
  resources : ∀ row ∈ tables.processorResources, row.processorId < tables.nextId

/-- The requests are given by their numbers; each may come in at any time. -/
def system (info : MetaInfo) (sessionId : String) (requests : ℕ → Request)
    (serve : ℕ → Service State Op Ans Failure Env) : System Run (Pool.Act Request Env) :=
  (Pool.system (fun s => ∃ tables, Without sessionId tables ∧ s = .init tables) (Request.program info) serve).restrict
    fun _ act => match act with
      | .invoke id request => request = requests id ∧ request.concerns sessionId
      | .step _ _ => true

def creating (id : ℕ) (s : State) : Bool := s.started = [] ∧ ∃ creation ∈ s.creations, creation.request = id

/-- When a request may make a call: one that has found no session and builds its line finds
none or a `NEW` one, unless it carries `NEW` itself; and no call of a creation fails once the
session is inserted. -/
def orderly (requests : ℕ → Request) (id : ℕ) (s : State) (op : Op) (env : Env) : Bool :=
  (!creating id s || !env.fails) &&
    match op with
    | .getSession sessionId => s.looked id ≠ [none] ∨ (requests id).carriesNew ∨
        ∀ row ∈ s.tables.session sessionId, row.status = "NEW"
    | _ => true

def service (requests : ℕ → Request) (id : ℕ) : Service State Op Ans Failure Env :=
  (State.serve id).restrict (orderly requests id)

def unnumbered (row : SessionProcessor) : SessionProcessor := { row with processorId := -1 }

def Creation.rows (creation : Creation) (sessionMeta : ErSessionMeta) (eggs : Int) : List SessionProcessor :=
  creation.serverNodes.flatMap fun node => List.replicate eggs.toNat (newProcessor {} sessionMeta node).toRow

/-- The row and the processors of this creation follow from what its request carries. -/
structure Creation.Made (info : MetaInfo) (requests : ℕ → Request) (creation : Creation)
    (sessionMeta : ErSessionMeta) (eggs : Int) : Prop where
  request : requests creation.request = .getOrCreate sessionMeta
  perNode : processorsPerNode info sessionMeta.options = some eggs
  row : creation.row = ⟨sessionMeta.id,sessionMeta.name,"NEW",none,none,sessionMeta.tag,
    some (creation.rows sessionMeta eggs).length,some 0⟩

/-- All processors are inserted, and they and no others are in the one start command. -/
structure Creation.Finished (creation : Creation) (sessionMeta : ErSessionMeta) (eggs : Int) (s : State) : Prop where
  added : s.added.map unnumbered = creation.rows sessionMeta eggs
  started : ∃ session, s.started = [⟨creation.request,creation.serverNodes,session⟩] ∧
    session.id = creation.row.sessionId ∧ session.processors.map ErProcessor.toRow = s.added

/-- What is returned is the session that was inserted, with processors of its own. -/
def IsSession (s : State) (found : ErSessionMeta) : Prop :=
  ∃ creation ∈ s.creations, found.id = creation.row.sessionId ∧ found.name = creation.row.name ∧
    found.tag = creation.row.tag ∧ found.totalProcCount = creation.row.totalProcCount ∧
    ∀ processor ∈ found.processors, ∃ row ∈ s.added, row.processorId = processor.id

/-- The session is created at most once and whole, and whoever is answered has got it. -/
structure CreatedOnce (info : MetaInfo) (sessionId : String) (requests : ℕ → Request) (p : Run) : Prop where
  once : p.shared.creations.length ≤ 1
  never : p.shared.creations = [] → p.shared.added = [] ∧ p.shared.started = []
  made : ∀ creation ∈ p.shared.creations, creation.row.sessionId = sessionId ∧
    ∃ sessionMeta eggs, creation.Made info requests sessionMeta eggs ∧
      p.shared.added.map unnumbered <+: creation.rows sessionMeta eggs ∧ p.shared.started.length ≤ 1 ∧
      ((p.shared.locks sessionId).owner ≠ some creation.request ∨
        (∃ result, p.Ended creation.request (requests creation.request) result) →
          creation.Finished sessionMeta eggs p.shared)
  returns : ∀ id sessionMeta result, p.Ended id (.getOrCreate sessionMeta) (.ok result) →
    ∃ found, result = some found ∧ IsSession p.shared found

end Eggroll.Cluster.SessionCreation
