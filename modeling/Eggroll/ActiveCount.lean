import Eggroll.SessionCalls

/-! Counting the active processors of a session: `ProcessorStateRunningHandler`, whose tasks in
the pool recount the rows (`SessionMainService.updateSessionMainActiveCount`), among the
changes of the processors to `RUNNING`. -/
namespace Eggroll.Cluster.ActiveCount
open Library
open Program hiding call

def updateSessionMainActiveCount (sessionId : String) : Change Bool := do
  let processors ← getProcessorBySession sessionId false
  if processors.any fun p => p.status = "" then raise .nullPointer
  else do
    let activeCount := (processors.filter fun p => p.status = "RUNNING").length
    call (.updateSession sessionId { activeProcCount := some activeCount })
    pure (processors.length ≠ 0 && processors.length = activeCount)

/-- The end of `asynPostHandle`, when all processors are running. -/
def activate (info : MetaInfo) (sessionId : String) : Change Unit := do
  let sessionMeta ← getSession sessionId false false false >>= notNull
  if sessionMeta.status = "" then raise .nullPointer
  else if sessionMeta.status = "NEW" then do
    let _ ← (sessionStateMachine info).changeStatus {} sessionMeta "NEW" "ACTIVE" false
    pure ()
  else pure ()

def asynPostHandle (info : MetaInfo) (processorInDb : Option ErProcessor) (sessionId : String) : Change Unit := do
  let processorInDb ← notNull processorInDb
  let isAllReady ← updateSessionMainActiveCount processorInDb.sessionId
  if isAllReady then activate info sessionId else pure ()

/-- The tables, and as history the tasks that were given to the pool, the rows that each of
them has counted, in this order, the tasks that have stored a count, and those that have gone
on to a change of the session. -/
structure State where
  tables : Tables
  submitted : List (Option ErProcessor × String)
  counted : List (ℕ × List SessionProcessor)
  written : List ℕ
  requested : List ℕ

namespace State

def init (tables : Tables) : State := ⟨tables,[],[],[],[]⟩

/-- The history of a call that is answered. A task first reads the rows that it counts, and a
change of the session takes the lock of the session. -/
def note (s : State) (id : ℕ) : Op → State
  | .submit (.updateActiveCount processorInDb sessionId) =>
    { s with submitted := s.submitted ++ [(processorInDb,sessionId)] }
  | .listProcessors sessionId =>
    if id ∈ s.counted.map Prod.fst then s
    else { s with counted := s.counted ++ [(id,s.tables.processorsOf sessionId)] }
  | .updateSession _ patch => if patch.activeProcCount.isSome then { s with written := s.written ++ [id] } else s
  | .lock .session _ => { s with requested := s.requested ++ [id] }
  | _ => s

/-- Every lock lets everybody in, which only adds interleavings. -/
def serve (id : ℕ) : Service State Op Ans Failure Env := fun s op env =>
  match s.tables.serve op env with
  | none => none
  | some (tables,.ok a) => some ({ s.note id op with tables := tables },.ok a)
  | some (tables,.error e) => some ({ s with tables := tables },.error e)

end State

/-- A node reports that a processor is running, or the pool runs a task. -/
inductive Request
  | running (data : ErProcessor)
  | post (processorInDb : Option ErProcessor) (sessionId : String)
deriving Repr, DecidableEq

def Request.program (info : MetaInfo) : Request → Change Unit
  | .running data => do
    let _ ← (processorStateMachine info.useResourceDispatch).changeStatus {} data "" "RUNNING" false
    pure ()
  | .post processorInDb sessionId => asynPostHandle info processorInDb sessionId

abbrev Run := Pool State Request Op Ans Failure Unit

/-- A new session with processors that are all new. -/
structure Fresh (sessionId : String) (tables : Tables) : Prop where
  session : ∃ row, tables.session sessionId = some row ∧ row.status = "NEW"
  some_ : tables.processorsOf sessionId ≠ []
  processors : ∀ row ∈ tables.processorsOf sessionId, row.status = "NEW"
  ids : (tables.processors.map SessionProcessor.processorId).Nodup

/-- Even requests are reports of processors of the session, odd ones run the tasks. -/
def admitted (sessionId : String) (p : Run) : Pool.Act Request Env → Bool
  | .invoke id (.running data) =>
    id % 2 = 0 ∧ data.id ∈ (p.shared.tables.processorsOf sessionId).map SessionProcessor.processorId
  | .invoke id (.post processorInDb session) => id % 2 = 1 ∧ p.shared.submitted[id / 2]? = some (processorInDb,session)
  | .step _ _ => true

def system (info : MetaInfo) (sessionId : String) (serve : ℕ → Service State Op Ans Failure Env) :
    System Run (Pool.Act Request Env) :=
  (Pool.system (fun s => ∃ tables, Fresh sessionId tables ∧ s = .init tables) (Request.program info) serve).restrict
    (admitted sessionId)

def readLater (s : State) (id : ℕ) : List ℕ := ((s.counted.map Prod.fst).dropWhile (· ≠ id)).tail

/-- No call of a task fails, and no task stores its count after one that has read later. -/
def orderly (id : ℕ) (s : State) (op : Op) (env : Env) : Bool :=
  (id % 2 = 1 → env.fails = false) &&
    match op with
    | .updateSession _ patch => patch.activeProcCount.isSome → ∀ other ∈ readLater s id, other ∉ s.written
    | _ => true

def service (id : ℕ) : Service State Op Ans Failure Env := (State.serve id).restrict (orderly id)

/-- All processors are running, each has had its task, and every task has ended. -/
structure AllEnded (sessionId : String) (p : Run) : Prop where
  running : ∀ row ∈ p.shared.tables.processorsOf sessionId, row.status = "RUNNING"
  handled : ∀ row ∈ p.shared.tables.processorsOf sessionId, ∃ processorInDb session,
    (some processorInDb,session) ∈ p.shared.submitted ∧ processorInDb.id = row.processorId
  ended : ∀ k, k < p.shared.submitted.length → ∃ request result, p.Ended (2 * k + 1) request result

/-- Then the count is the number of processors, and a task has asked for the session to be active. -/
def Converges (sessionId : String) (p : Run) : Prop :=
  AllEnded sessionId p →
    (∃ row, p.shared.tables.session sessionId = some row ∧
      row.activeProcCount = some (p.shared.tables.processorsOf sessionId).length) ∧
    ∃ k, 2 * k + 1 ∈ p.shared.requested

end Eggroll.Cluster.ActiveCount
