import Mathlib.Logic.Function.Basic
import Eggroll.Library.System
import Eggroll.ResourceDispatch

/-! The resource dispatcher (`dispatchThread` of `ClusterResourceManager.java`) with the
submitters whose applications it serves and the kill requests that race with it. A step
is one call into the queue, the database or an application's latch and counters. -/
namespace Eggroll

inductive SessionStatus
  | WAITING_RESOURCE
  | PREPARE
  | NEW
  | NEW_TIMEOUT
  | ACTIVE
  | CLOSED
  | KILLED
  | ERROR
  | ALLOCATE_RESOURCE_FAILED
  | FINISHED
deriving Repr, DecidableEq

namespace Dispatcher
open Library ResourceApplication ResourceDispatch

structure SessionRow where
  status : SessionStatus
  processors : List ErProcessor
deriving Repr, DecidableEq

abbrev Nodes := List ErServerNode

/-- How the `try` block of the dispatch loop ends, before its `finally`. -/
inductive Completion
  | breaks
  | continues (again : Bool)
  | returns
  | throws
  | normal (serverNodes : Nodes) (processors : List ProcessorRef)
deriving DecidableEq

/-- Where the dispatch thread stands; `app` is the application it has peeked. -/
inductive Pc
  | outer
  | lock (app : Nat)
  | readStatus (app : Nat)
  | dropRemove (app : Nat)
  | dropCount (app : Nat)
  | readWaiting (app : Nat)
  | expiredRemove (app : Nat)
  | nodes (app tryCount : Nat)
  | check (app : Nat) (serverNodes : Option Nodes)
  | strategy (app : Nat) (serverNodes : Nodes)
  | refuseCount (app : Nat)
  | refuseRemove (app : Nat)
  | dispatch (app : Nat) (serverNodes : Nodes)
  | register (app : Nat) (serverNodes : Nodes)
  | unlock (app : Nat) (completion : Completion)
  | refill (app : Nat) (serverNodes : Nodes) (processors : List ProcessorRef)
  | count (app : Nat)
  | remove (app : Nat)
  | quit
deriving DecidableEq

/-- Where the submitter of an application stands: in `submitResourceRequest` up to `put`,
in `getResult` from `waiting` on, leaving it with a result or with an exception. -/
inductive SubmitterPc
  | start
  | save
  | put
  | waiting
  | leaving (result : Option (List (ProcessorRef × ErServerNode)))
  | ended (result : Option (List (ProcessorRef × ErServerNode)))
  | failed
deriving DecidableEq

inductive Outcome
  | cancelled
  | expired
  | refused
  | dispatched
deriving Repr, DecidableEq

/-- `apps` are the application objects. `submitted`, `answered`, `removed` and `registered`
are history: what was put into the queue, what was decided for which application, what was
taken off the queue, and which processors were stored with a NEW session. -/
structure State where
  db : String → Option SessionRow
  apps : Nat → ResourceApplication
  queue : List Nat
  pc : Pc
  submitter : Nat → SubmitterPc
  submitted : List Nat
  answered : List (Outcome × Nat)
  removed : List Nat
  registered : List (Nat × List ProcessorRef)

/-- What a call of the dispatch thread is answered: normally, by an exception, with nodes,
or with the order of a shuffle. -/
inductive Answer
  | ok
  | raises
  | nodes (serverNodes : Option Nodes)
  | shuffled (order : List Nat)

inductive Act
  | dispatcher (answer : Answer)
  | submit (app : Nat)
  | await (app : Nat)
  | timeout (app : Nat)
  | interrupt (app : Nat)
  | leave (app : Nat)
  | kill (sessionId : String) (status : SessionStatus)

namespace State

def goto (s : State) (pc : Pc) : State := { s with pc := pc }

def setApp (s : State) (a : Nat) (app : ResourceApplication) : State :=
  { s with apps := Function.update s.apps a app }

def answer (s : State) (outcome : Outcome) (a : Nat) : State :=
  { s with answered := s.answered ++ [(outcome,a)] }

def countDown (s : State) (a : Nat) : State := s.setApp a { s.apps a with latch := true }

/-- `applicationQueue.getBroker().remove()`, and where the thread is then; an empty queue
is a NoSuchElementException. -/
def take (s : State) (next thrown : Pc) : State :=
  match s.queue with
  | [] => s.goto thrown
  | head :: rest => { s.goto next with queue := rest, removed := s.removed ++ [head] }

/-- `registerWithResource`: the row is updated, its processors are inserted. -/
def register (s : State) (a : Nat) : State :=
  let app := s.apps a
  let refs := app.resourceDispatch.map Prod.fst
  { s with
    db := Function.update s.db app.sessionId ((s.db app.sessionId).map fun _ =>
      ⟨.NEW,refs.filterMap app.object⟩)
    registered := s.registered ++ [(a,refs)] }

end State

/-- The pairs put into `resourceDispatch` again, up to the first processor whose node is
not among `serverNodes`, and whether there is such a one. -/
def regroup (app : ResourceApplication) (serverNodes : Nodes) :
    List ProcessorRef → List (ProcessorRef × ErServerNode) × Bool
  | [] => ([],true)
  | ref :: rest =>
    match (app.object ref).bind (fun p => serverNodes.find? (fun node => some node.id = p.serverNodeId)) with
    | none => ([],false)
    | some node =>
      let later := regroup app serverNodes rest
      ((ref,node) :: later.1,later.2)

section
variable (setting : Setting)

/-- A step of the dispatch thread. An exception ends the `try` block, and after `finally`
it is logged and the outer loop goes on. -/
def dispatcherStep (s : State) (answer : Answer) : Option State :=
  match s.pc, answer with
  | .outer, .ok =>
    match s.queue with
    | [] => some s
    | app :: _ => some (s.goto (.lock app))
  | .lock a, .ok => some (s.goto (.readStatus a))
  | .lock a, .raises => some (s.goto (.unlock a .throws))
  | .readStatus a, .ok =>
    match s.db (s.apps a).sessionId with
    | none => some (s.goto (.unlock a .throws))
    | some row =>
      if row.status ≠ .WAITING_RESOURCE then some ((s.answer .cancelled a).goto (.dropRemove a))
      else some (s.goto (.readWaiting a))
  | .readStatus a, .raises => some (s.goto (.unlock a .throws))
  | .dropRemove a, .ok => some (s.take (.dropCount a) (.unlock a .throws))
  | .dropCount a, .ok => some ((s.countDown a).goto (.unlock a .breaks))
  | .readWaiting a, .ok =>
    if (s.apps a).waitingCount = 0 then some ((s.answer .expired a).goto (.expiredRemove a))
    else some (s.goto (.nodes a 0))
  | .expiredRemove a, .ok => some (s.take (.unlock a .breaks) (.unlock a .throws))
  | .nodes a tryCount, .nodes serverNodes =>
    if (serverNodes.getD []).isEmpty ∧ tryCount + 1 < 2 then some (s.goto (.nodes a (tryCount + 1)))
    else some (s.goto (.check a serverNodes))
  | .nodes a _, .raises => some (s.goto (.unlock a .throws))
  | .check a serverNodes, .ok =>
    match checkResourceEnough setting.perNode setting.typeOrder serverNodes (s.apps a) with
    | .error _ => some (s.goto (.unlock a .throws))
    | .ok (enough,app) =>
      let nodes := serverNodes.getD []
      some ((s.setApp a app).goto (if enough then .dispatch a nodes else .strategy a nodes))
  | .strategy a nodes, .ok =>
    match (s.apps a).resourceExhaustedStrategy with
    | none => some (s.goto (.unlock a .throws))
    | some strategy =>
      if strategy = Dict.IGNORE then some (s.goto (.unlock a (.continues false)))
      else if strategy = Dict.WAITING then some (s.goto (.unlock a (.continues true)))
      else if strategy = Dict.THROW_ERROR then
        some (((s.answer .refused a).setApp a { s.apps a with status := 1 }).goto (.refuseCount a))
      else some (s.goto (.dispatch a nodes))
  | .refuseCount a, .ok => some ((s.countDown a).goto (.refuseRemove a))
  | .refuseRemove a, .ok => some (s.take (.unlock a .returns) (.unlock a .throws))
  | .dispatch a nodes, .shuffled order =>
    match dispatch setting order nodes (s.apps a) with
    | (app,none) => some ((s.setApp a app).goto (.register a nodes))
    | (app,some _) => some ((s.setApp a app).goto (.unlock a .throws))
  | .register a nodes, .ok =>
    let refs := (s.apps a).resourceDispatch.map Prod.fst
    some ((s.register a).goto (.unlock a (.normal nodes refs)))
  | .register a _, .raises => some (s.goto (.unlock a .throws))
  | .unlock a completion, .ok =>
    match completion with
    | .breaks | .continues false | .throws => some (s.goto .outer)
    | .continues true => some (s.goto (.lock a))
    | .returns => some (s.goto .quit)
    | .normal nodes refs => some (s.goto (.refill a nodes refs))
  | .unlock _ _, .raises => some (s.goto .outer)
  | .refill a nodes refs, .ok =>
    let pairs := regroup (s.apps a) nodes refs
    some ((s.setApp a { s.apps a with resourceDispatch := pairs.1 }).goto
      (if pairs.2 then .count a else .outer))
  | .count a, .ok => some (((s.answer .dispatched a).countDown a).goto (.remove a))
  | .remove _, .ok => some (s.take .outer .outer)
  | _, _ => none

end

/-- A submitter's next step. Its status change stores the session as WAITING_RESOURCE if
it found none, and else changes nothing; `put` waits while the queue is full. -/
def submitStep (s : State) (a : Nat) : Option State :=
  let sid := (s.apps a).sessionId
  let goto (pc : SubmitterPc) : State := { s with submitter := Function.update s.submitter a pc }
  match s.submitter a with
  | .start => some (goto (if (s.db sid).isNone then .save else .put))
  | .save =>
    if (s.db sid).isSome then some (goto .failed)
    else some { goto .put with db := Function.update s.db sid (some ⟨.WAITING_RESOURCE,[]⟩) }
  | .put =>
    if s.queue.length < 100 then
      some { goto .waiting with queue := s.queue ++ [a], submitted := s.submitted ++ [a] }
    else none
  | _ => none

/-- Leaving the wait of `getResult`, with `result` or an exception. -/
def endWait (s : State) (a : Nat) (result : Option (List (ProcessorRef × ErServerNode))) : Option State :=
  if s.submitter a = .waiting then
    some { s with submitter := Function.update s.submitter a (.leaving result) }
  else none

/-- The `finally` of `getResult`. -/
def leaveStep (s : State) (a : Nat) : Option State :=
  match s.submitter a with
  | .leaving result =>
    some { s.setApp a { s.apps a with waitingCount := (s.apps a).waitingCount - 1 } with
      submitter := Function.update s.submitter a (.ended result) }
  | _ => none

/-- Kill requests store their status at any time: those that take the session lock are
more restricted than that. -/
def killStep (s : State) (sid : String) (status : SessionStatus) : Option State :=
  match s.db sid with
  | some row =>
    if status = .KILLED ∨ status = .ERROR ∨ status = .CLOSED then
      some { s with db := Function.update s.db sid (some { row with status := status }) }
    else none
  | none => none

def Fresh (app : ResourceApplication) : Prop :=
  app.resourceDispatch = [] ∧ app.latch = false ∧ app.waitingCount = 1 ∧ app.status = 0

def system (setting : Setting) : System State Act where
  start s := (∀ a, Fresh (s.apps a)) ∧ s.queue = [] ∧ s.pc = .outer ∧ (∀ a, s.submitter a = .start) ∧
    s.submitted = [] ∧ s.answered = [] ∧ s.removed = [] ∧ s.registered = []
  step s
    | .dispatcher answer => dispatcherStep setting s answer
    | .submit a => submitStep s a
    | .await a => if (s.apps a).latch then endWait s a (some (s.apps a).resourceDispatch) else none
    | .timeout a => if 0 < (s.apps a).timeout ∧ (s.apps a).latch = false then endWait s a none else none
    | .interrupt a => endWait s a none
    | .leave a => leaveStep s a
    | .kill sid status => killStep s sid status

/-- The state in which the applications have been built and nothing else has happened. -/
def State.fresh (apps : Nat → ResourceApplication) : State :=
  ⟨fun _ => none,apps,[],.outer,fun _ => .start,[],[],[],[]⟩

theorem State.fresh_start (setting : Setting) {apps : Nat → ResourceApplication} (each : ∀ a, Fresh (apps a)) :
    (system setting).start (.fresh apps) :=
  ⟨each,rfl,rfl,fun _ => rfl,rfl,rfl,rfl,rfl⟩

def plainSetting : Setting := ⟨1,id,id,fun _ => .rfl⟩

def fourCores (allocated : Int) : ErServerNode :=
  ⟨1,"node",[{ resourceType := Dict.VCPU_CORE, total := 4, allocated := allocated, preAllocated := 0 }]⟩

/-- An application for one processor with `cores` cores. -/
def oneProcessor (sessionId : String) (cores : Int) : ResourceApplication :=
  { sessionId := sessionId
    processors := [{ processorType := "DeepSpeed", status := "NEW"
                     resources := [{ resourceType := Dict.VCPU_CORE, allocated := cores }] }] }

def submits (a : Nat) : List Act := [.submit a,.submit a,.submit a]

def passes (serverNodes : Nodes) : List Act :=
  [.dispatcher .ok,.dispatcher .ok,.dispatcher .ok,.dispatcher .ok,.dispatcher (.nodes (some serverNodes)),
    .dispatcher .ok]

end Dispatcher
end Eggroll
