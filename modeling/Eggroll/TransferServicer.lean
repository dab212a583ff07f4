import Eggroll.Broker
import Eggroll.Format

/-! `GrpcTransferServicer.recv` (`transfer_service.py`): the response stream for what is
registered under a tag, a generator of batches or a `FifoBroker` that writers still fill. -/
namespace Eggroll.Recv
open Library Format

/-- A `TransferBatch` with its header. -/
structure TransferBatch where
  id : Nat
  tag : String
  data : Bytes
deriving Repr, DecidableEq

/-- A generator with the batches it has left and the error it raises behind them, if any,
or a `FifoBroker` with its writers. -/
inductive Registered (W : Type)
  | generator (batches : List (Option Bytes)) (failure : Option PyError)
  | fifo (state : Broker.State W Bytes)

inductive Pc
  | serving
  | ended
  | raised (e : PyError)
deriving DecidableEq

structure State (W : Type) where
  registered : Registered W
  i : Nat
  response : List TransferBatch
  pc : Pc

inductive Label (W : Type)
  | write (w : W)
  | serve

section
variable {W : Type} [DecidableEq W]

def serveStep (tag : String) (s : State W) : Option (State W) :=
  match s.pc with
  | .serving =>
    match s.registered with
    | .generator (data :: rest) failure =>
      some { s with
        registered := .generator rest failure
        i := s.i + 1
        response := s.response ++ [⟨s.i,tag,data.getD []⟩] }
    | .generator [] none => some { s with pc := .ended }
    | .generator [] (some e) => some { s with pc := .raised e }
    -- `recv` has a `yield`, so this `return` only ends its stream: nothing runs the
    -- generator that `transfer_batch_generator_from_broker` makes
    | .fifo _ => some { s with pc := .ended }
  | _ => none

def step (tag : String) (s : State W) : Label W → Option (State W)
  | .write w =>
    match s.registered with
    | .fifo state => (Broker.writeStep state w).map fun t => { s with registered := .fifo t }
    | .generator _ _ => none
  | .serve => serveStep tag s

/-- What can be registered: a generator, or a `FifoBroker` of some size with the items that
its writers put. -/
inductive Source (W : Type)
  | generator (batches : List (Option Bytes)) (failure : Option PyError)
  | fifo (maxsize : Int) (items : W → List Bytes)

variable [Fintype W]

def initial : Source W → State W
  | .generator batches failure => ⟨.generator batches failure,0,[],.serving⟩
  | .fifo maxsize items => ⟨.fifo (Broker.initial maxsize items),0,[],.serving⟩

def system (tag : String) (source : Source W) : System (State W) (Label W) where
  start s := s = initial source
  step := step tag

/-- Batches numbered from `i` on. -/
def number (tag : String) (i : Nat) (batches : List Bytes) : List TransferBatch :=
  (batches.zipIdx i).map fun (data,id) => ⟨id,tag,data⟩

/-- All items in order; those of several writers in any order that keeps each writer's. -/
def Complete (tag : String) (source : Source W) (response : List TransferBatch) : Prop :=
  match source with
  | .generator batches _ => response = number tag 0 (batches.map fun data => data.getD [])
  | .fifo _ items => ∃ order : List (W × Bytes), (∀ w, valuesOf w order = items w) ∧
      response = number tag 0 (order.map Prod.snd)

/-- The response stream is complete when it ends, and the servicer brings it to its end
from every state. -/
structure Delivers (tag : String) (source : Source W) : Prop where
  complete : ∀ s, (system tag source).Reachable s → s.pc = .ended → Complete tag source s.response
  ends : ∀ s, (system tag source).Reachable s →
    ∃ n t, (system tag source).Run s (List.replicate n .serve) t ∧ t.pc = .ended

/-- A generator that does not raise, or a `FifoBroker` that gets no item. -/
def Deliverable : Source W → Prop
  | .generator _ failure => failure = none
  | .fifo _ items => ∀ w, items w = []

/-- What the stream has sent and will send. -/
structure Sent (tag : String) (batches : List (Option Bytes)) (failure : Option PyError) (s : State W) :
    Prop where
  registered : ∃ rest, s.registered = .generator rest failure ∧
    s.response ++ number tag s.i (rest.map fun data => data.getD []) =
      number tag 0 (batches.map fun data => data.getD [])
  ended : s.pc = .ended → s.registered = .generator [] failure ∧ failure = none
  raised : ∀ e, s.pc = .raised e → failure = some e

omit [DecidableEq W] in
private theorem initial_sent (tag : String) (batches : List (Option Bytes)) (failure : Option PyError) :
    Sent (W := W) tag batches failure (initial (.generator batches failure)) :=
  ⟨⟨batches,rfl,rfl⟩,fun ended => by simp [initial] at ended,fun e raised => by simp [initial] at raised⟩

omit [Fintype W] in
private theorem step_sent {tag : String} {batches : List (Option Bytes)} {failure : Option PyError} {s t : State W}
    {a : Label W} (sent : Sent tag batches failure s) (stepped : step tag s a = some t) :
    Sent tag batches failure t := by
  obtain ⟨⟨rest,registered,whole⟩,ended,raised⟩ := sent
  cases a with
  | write w => simp [step,registered] at stepped
  | serve =>
    cases pc : s.pc with
    | ended | raised => simp [step,serveStep,pc] at stepped
    | serving =>
      cases rest with
      | cons data rest =>
        simp only [step,serveStep,pc,registered,Option.some.injEq] at stepped
        subst stepped
        refine ⟨⟨rest,rfl,?_⟩,fun done => by simp at done,fun e done => by simp at done⟩
        rw [← whole]
        simp [number]
      | nil =>
        cases failure with
        | none =>
          simp only [step,serveStep,pc,registered,Option.some.injEq] at stepped
          subst stepped
          exact ⟨⟨[],rfl,whole⟩,fun _ => ⟨rfl,rfl⟩,fun e done => by simp at done⟩
        | some e =>
          simp only [step,serveStep,pc,registered,Option.some.injEq] at stepped
          subst stepped
          exact ⟨⟨[],rfl,whole⟩,fun done => by simp at done,fun e done => by simpa using done⟩

private theorem reachable_sent {tag : String} {batches : List (Option Bytes)} {failure : Option PyError} {s : State W}
    (reached : (system tag (.generator batches failure)).Reachable s) : Sent tag batches failure s := by
  apply reached.invariant
  · rintro _ rfl
    exact initial_sent tag batches failure
  · exact fun _ _ _ sent stepped => step_sent sent stepped

private theorem generator_ends (tag : String) (source : Source W) {rest : List (Option Bytes)} {s : State W}
    (registered : s.registered = .generator rest none) (going : s.pc = .serving) :
    ∃ n t, (system tag source).Run s (List.replicate n .serve) t ∧ t.pc = .ended := by
  induction rest generalizing s with
  | nil =>
    refine ⟨1,{ s with pc := .ended },?_,rfl⟩
    exact .single (by simp [system,step,serveStep,going,registered])
  | cons data rest ih =>
    let next : State W := { s with
      registered := .generator rest none
      i := s.i + 1
      response := s.response ++ [⟨s.i,tag,data.getD []⟩] }
    have stepped : (system tag source).step s .serve = some next := by
      simp [system,step,serveStep,going,registered,next]
    obtain ⟨n,t,run,ended⟩ := ih (s := next) rfl going
    exact ⟨n + 1,t,(System.run_cons_iff _ s t _ _).mpr ⟨next,stepped,run⟩,ended⟩

private theorem reachable_silent {tag : String} {maxsize : Int} {items : W → List Bytes} {s : State W}
    (reached : (system tag (.fifo maxsize items)).Reachable s) :
    s.response = [] ∧ (∃ state, s.registered = .fifo state) ∧ ∀ e, s.pc ≠ .raised e := by
  apply reached.invariant
  · rintro _ rfl
    exact ⟨rfl,⟨_,rfl⟩,by simp [initial]⟩
  · intro s a t holds stepped
    obtain ⟨silent,⟨state,registered⟩,calm⟩ := holds
    cases a with
    | write w =>
      simp only [system,step,registered,Option.map_eq_some_iff] at stepped
      obtain ⟨state',_,rfl⟩ := stepped
      exact ⟨silent,⟨state',rfl⟩,calm⟩
    | serve =>
      cases pc : s.pc with
      | ended | raised => simp [system,step,serveStep,pc] at stepped
      | serving =>
        simp only [system,step,serveStep,pc,registered,Option.some.injEq] at stepped
        subst stepped
        exact ⟨silent,⟨state,rfl⟩,by simp⟩

/-- A response stream is complete exactly for a generator that does not raise and for a
`FifoBroker` through which nothing comes. -/
theorem recv_delivers (tag : String) (source : Source W) : Delivers tag source ↔ Deliverable source := by
  have started : (system tag source).Reachable (initial source) := .start rfl
  cases source with
  | generator batches failure =>
    constructor
    · intro delivers
      obtain ⟨n,t,run,ended⟩ := delivers.ends _ started
      exact ((reachable_sent (started.extend run)).ended ended).2
    · rintro rfl
      refine ⟨fun s reached ended => ?_,fun s reached => ?_⟩
      · obtain ⟨⟨rest,registered,whole⟩,final,_⟩ := reachable_sent reached
        rw [(final ended).1] at registered
        cases registered
        simpa [Complete,number] using whole
      · obtain ⟨⟨rest,registered,_⟩,_,raised⟩ := reachable_sent reached
        cases pc : s.pc with
        | serving => exact generator_ends tag _ registered pc
        | ended => exact ⟨0,s,System.run_nil _ _,pc⟩
        | raised e => exact absurd (raised e pc) (by simp)
  | fifo maxsize items =>
    have ends (s : State W) (reached : (system tag (.fifo maxsize items)).Reachable s) :
        ∃ n t, (system tag (.fifo maxsize items)).Run s (List.replicate n .serve) t ∧ t.pc = .ended := by
      obtain ⟨_,⟨state,registered⟩,calm⟩ := reachable_silent reached
      cases pc : s.pc with
      | serving =>
        refine ⟨1,{ s with pc := .ended },?_,rfl⟩
        exact .single (by simp [system,step,serveStep,pc,registered])
      | ended => exact ⟨0,s,System.run_nil _ _,pc⟩
      | raised e => exact absurd pc (calm e)
    constructor
    · intro delivers w
      obtain ⟨n,t,run,ended⟩ := ends _ started
      obtain ⟨order,values,sent⟩ := delivers.complete t (started.extend run) ended
      rw [(reachable_silent (started.extend run)).1] at sent
      have empty : order = [] := by
        have length := congrArg List.length sent
        simpa [number,eq_comm] using length
      rw [← values w,empty,valuesOf_nil]
    · intro nothing
      refine ⟨fun s reached _ => ⟨[],fun w => ?_,?_⟩,ends⟩
      · rw [nothing w,valuesOf_nil]
      · rw [(reachable_silent reached).1]
        rfl

/-- One writer that puts one item. -/
theorem recv_drops_fifo : ¬ ∀ (source : Source Unit), (∀ batches e, source ≠ .generator batches (some e)) →
    Delivers "tag" source := by
  intro always
  have delivers := always (.fifo 1 fun _ => [[1]]) (by simp)
  have ended := delivers.complete ⟨.fifo (Broker.initial 1 fun _ => [[1]]),0,[],.ended⟩
    ⟨_,[.serve],rfl,rfl⟩ rfl
  obtain ⟨order,values,sent⟩ := ended
  cases order with
  | nil => exact absurd (values ()) (by simp)
  | cons item rest => simp [number] at sent

end
end Eggroll.Recv
