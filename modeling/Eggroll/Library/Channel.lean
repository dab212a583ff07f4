import Mathlib.Data.Fintype.Card
import Eggroll.Library.Keyed
import Eggroll.Library.System

/-! What a queue with several writers and one reader is for: every writer has items to
deliver and closes its side after the last one, and the reader may stop when all
sides are closed and the queue is empty. -/
namespace Library

structure Channel (W α : Type) where
  pending : W → List α
  closed : W → Bool
  queue : List (W × α)
  received : List (W × α)
  stopped : Bool

namespace Channel
variable {W α : Type} [DecidableEq W]

inductive Label (W : Type)
  | put (w : W)
  | close (w : W)
  | take
  | stop

def step [Fintype W] (c : Channel W α) : Label W → Option (Channel W α)
  | .put w =>
    match c.closed w,c.pending w with
    | false,x :: rest =>
      some { c with pending := Function.update c.pending w rest, queue := c.queue ++ [(w,x)] }
    | _,_ => none
  | .close w =>
    if (c.pending w).isEmpty then some { c with closed := Function.update c.closed w true } else none
  | .take =>
    match c.queue with
    | [] => none
    | item :: rest => some { c with queue := rest, received := c.received ++ [item] }
  | .stop =>
    if (∀ w, c.closed w = true) ∧ c.queue.isEmpty then some { c with stopped := true } else none

def initial (items : W → List α) : Channel W α := ⟨items,fun _ => false,[],[],false⟩

def system [Fintype W] (items : W → List α) : System (Channel W α) (Label W) where
  start c := c = initial items
  step := step

/-- Nothing is lost, doubled or reordered within a writer, and a stop is final. -/
structure Invariant (items : W → List α) (c : Channel W α) : Prop where
  conserved : ∀ w, valuesOf w c.received ++ valuesOf w c.queue ++ c.pending w = items w
  finished : ∀ w, c.closed w = true → c.pending w = []
  drained : c.stopped = true → (∀ w, c.closed w = true) ∧ c.queue = []

theorem step_invariant [Fintype W] {items : W → List α} {c d : Channel W α} {a : Label W}
    (holds : Invariant items c) (stepped : step c a = some d) : Invariant items d := by
  obtain ⟨conserved,finished,drained⟩ := holds
  cases a with
  | put w =>
    cases shut : c.closed w with
    | true => simp [step,shut] at stepped
    | false =>
      cases todo : c.pending w with
      | nil => simp [step,shut,todo] at stepped
      | cons x rest =>
        simp only [step,shut,todo,Option.some.injEq] at stepped
        subst stepped
        refine ⟨fun v => ?_,fun v closedV => ?_,fun stop => ?_⟩
        · have before := conserved v
          by_cases same : w = v
          · subst same
            rw [todo] at before
            simpa [valuesOf_singleton] using before
          · simpa [valuesOf_singleton,same,Function.update_of_ne (Ne.symm same)] using before
        · have other : v ≠ w := by
            rintro rfl
            simp [shut] at closedV
          simp [Function.update_of_ne other,finished v closedV]
        · have all := (drained stop).1 w
          simp [shut] at all
  | close w =>
    simp only [step,Option.ite_none_right_eq_some,Option.some.injEq,List.isEmpty_iff] at stepped
    obtain ⟨empty,rfl⟩ := stepped
    refine ⟨conserved,fun v closedV => ?_,fun stop => ⟨fun v => ?_,(drained stop).2⟩⟩
    · by_cases same : v = w
      · exact same ▸ empty
      · simp only [Function.update_of_ne same] at closedV
        exact finished v closedV
    · by_cases same : v = w
      · simp [same]
      · simp only [Function.update_of_ne same,(drained stop).1 v]
  | take =>
    cases full : c.queue with
    | nil => simp [step,full] at stepped
    | cons item rest =>
      simp only [step,full,Option.some.injEq] at stepped
      subst stepped
      refine ⟨fun v => ?_,finished,fun stop => ?_⟩
      · have before := conserved v
        rw [full,← List.singleton_append,valuesOf_append] at before
        simpa using before
      · have empty := (drained stop).2
        simp [full] at empty
  | stop =>
    simp only [step,Option.ite_none_right_eq_some,Option.some.injEq,List.isEmpty_iff] at stepped
    obtain ⟨allowed,rfl⟩ := stepped
    exact ⟨conserved,finished,fun _ => allowed⟩

theorem initial_invariant (items : W → List α) : Invariant items (initial items) :=
  ⟨fun w => by simp [initial],fun w shut => by simp [initial] at shut,
    fun stop => by simp [initial] at stop⟩

theorem reachable_invariant [Fintype W] {items : W → List α} {c : Channel W α}
    (reached : (system items).Reachable c) : Invariant items c := by
  apply reached.invariant
  · rintro _ rfl
    exact initial_invariant items
  · intro _ _ _ holds stepped
    exact step_invariant holds stepped

theorem Invariant.received_prefix {items : W → List α} {c : Channel W α}
    (holds : Invariant items c) (w : W) : valuesOf w c.received <+: items w :=
  ⟨valuesOf w c.queue ++ c.pending w,by rw [← List.append_assoc,holds.conserved w]⟩

theorem Invariant.received_all {items : W → List α} {c : Channel W α}
    (holds : Invariant items c) (stop : c.stopped = true) (w : W) :
    valuesOf w c.received = items w := by
  obtain ⟨closed,empty⟩ := holds.drained stop
  have whole := holds.conserved w
  rw [empty,holds.finished w (closed w)] at whole
  simpa using whole

end Channel
end Library
