import Eggroll.SubmitUtils
import Mathlib.Data.List.FinRange
import Mathlib.Data.List.Perm.Basic

/-! `block_submit_unary_unit_tasks` and `_futures_wait` (`submit_utils.py`). The futures of
the tasks complete in any order; `wait` gives those that have as a set, and the responses are
collected in the order in which that set is iterated, which is not that of the tasks. -/
namespace Eggroll.SubmitUtils
open Library
variable {ε α : Type}

/-- What `wait(futures, return_when=FIRST_EXCEPTION)` has seen when it returns: the futures
that have completed, in their order, one of which failed unless these are all. The set `done`
of them is iterated in some order. -/
structure Waited (outcomes : List (Except ε α)) where
  finished : List (Fin outcomes.length)
  distinct : finished.Nodup
  woken : (∃ i ∈ finished, ∃ e, outcomes.get i = .error e) ∨ finished.length = outcomes.length
  iterated : List (Fin outcomes.length)
  done : iterated.Perm finished

/-- `[future.result() for future in done]`; the futures that are not done are cancelled and
not asked. -/
def _futures_wait {outcomes : List (Except ε α)} (w : Waited outcomes) : Except ε (List α) :=
  w.iterated.mapM outcomes.get

/-- What the futures of `CommandClient.async_call` end with; `sync_send n` is the `n`-th call. -/
def async_call {E : Type} (sync_send : Nat → List (ErTask E) → E → Except ε α)
    (args : List (List (ErTask E) × E)) : List (Except ε α) :=
  args.mapIdx fun n arg => sync_send n arg.1 arg.2

def block_submit_unary_unit_tasks {E : Type} (sync_send : Nat → List (ErTask E) → E → Except ε α)
    (tasks : List (List (ErTask E) × E)) (w : Waited (async_call sync_send tasks)) : Except ε (List α) :=
  _futures_wait w

variable {outcomes : List (Except ε α)}

/-- The responses in the order of the tasks, or the exception of one of them. -/
structure InTaskOrder (outcomes : List (Except ε α)) (result : Except ε (List α)) : Prop where
  returns : ∀ responses, outcomes = responses.map .ok → result = .ok responses
  raises : (∃ e, .error e ∈ outcomes) → ∃ e, .error e ∈ outcomes ∧ result = .error e

/-- The set gives, at each place, a future that ended as the one of that place. -/
def LinesUp (w : Waited outcomes) : Prop := w.iterated.map outcomes.get = outcomes

private theorem mapM_get_ok {items : List (Fin outcomes.length)} {results : List α} :
    items.mapM outcomes.get = .ok results ↔ items.map outcomes.get = results.map .ok := by
  rw [mapM_ok,← List.forall₂_eq_eq_eq,List.forall₂_map_left_iff,List.forall₂_map_right_iff]

private theorem mapM_get_error {items : List (Fin outcomes.length)} {e : ε} (failed : ∃ i ∈ items, outcomes.get i = .error e) :
    ∃ e', .error e' ∈ outcomes ∧ items.mapM outcomes.get = .error e' := by
  induction items with
  | nil =>
    obtain ⟨i,member,_⟩ := failed
    exact absurd member List.not_mem_nil
  | cons item rest ih =>
    rw [List.mapM_cons]
    cases first : outcomes.get item with
    | error e' => exact ⟨e',first ▸ outcomes.get_mem item,rfl⟩
    | ok a =>
      obtain ⟨i,member,failing⟩ := failed
      rcases List.mem_cons.mp member with rfl | later
      · cases first.symm.trans failing
      · obtain ⟨e',found,raised⟩ := ih ⟨i,later,failing⟩
        exact ⟨e',found,by rw [raised]; rfl⟩

theorem responses_of_fine {outcomes : List (Except ε α)} (fine : ¬ ∃ e, .error e ∈ outcomes) :
    ∃ responses : List α, outcomes = responses.map .ok := by
  induction outcomes with
  | nil => exact ⟨[],rfl⟩
  | cons outcome rest ih =>
    obtain ⟨responses,shape⟩ := ih fun ⟨e,member⟩ => fine ⟨e,List.mem_cons_of_mem _ member⟩
    cases outcome with
    | error e => exact absurd ⟨e,List.mem_cons_self⟩ fine
    | ok a => exact ⟨a :: responses,by rw [shape,List.map_cons]⟩

namespace Waited

private theorem all_iterated (w : Waited outcomes) (whole : w.finished.length = outcomes.length) :
    w.iterated.Perm (List.finRange outcomes.length) := by
  have covered : w.finished.Subperm (List.finRange outcomes.length) :=
    List.subperm_of_subset w.distinct fun i _ => List.mem_finRange i
  exact w.done.trans (covered.perm_of_length_le (by rw [List.length_finRange,whole]))

private theorem all_done (w : Waited outcomes) (fine : ¬ ∃ e, .error e ∈ outcomes) :
    w.iterated.Perm (List.finRange outcomes.length) := by
  rcases w.woken with ⟨i,_,e,failing⟩ | whole
  · exact absurd ⟨e,failing ▸ outcomes.get_mem i⟩ fine
  · exact w.all_iterated whole

def whole (iterated : List (Fin outcomes.length)) (done : iterated.Perm (List.finRange outcomes.length)) :
    Waited outcomes where
  finished := List.finRange outcomes.length
  distinct := List.nodup_finRange _
  woken := .inr List.length_finRange
  iterated := iterated
  done := done

end Waited

theorem raises_of_failure {w : Waited outcomes} (failure : ∃ e, .error e ∈ outcomes) :
    ∃ e, .error e ∈ outcomes ∧ _futures_wait w = .error e := by
  have seen : ∃ i ∈ w.iterated, ∃ e, outcomes.get i = .error e := by
    rcases w.woken with ⟨i,member,failing⟩ | whole
    · exact ⟨i,w.done.mem_iff.mpr member,failing⟩
    · obtain ⟨e,member⟩ := failure
      obtain ⟨i,found⟩ := List.get_of_mem member
      exact ⟨i,(w.all_iterated whole).mem_iff.mpr (List.mem_finRange i),e,found⟩
  obtain ⟨i,member,e,failing⟩ := seen
  exact mapM_get_error ⟨i,member,failing⟩

private theorem returns_iterated {w : Waited outcomes} {responses : List α}
    (collected : w.iterated.map outcomes.get = responses.map .ok) : _futures_wait w = .ok responses :=
  mapM_get_ok.mpr collected

theorem returns_perm (responses : List α) (w : Waited outcomes) (shape : outcomes = responses.map .ok) :
    ∃ collected, _futures_wait w = .ok collected ∧ collected.Perm responses := by
  have fine : ¬ ∃ e, .error e ∈ outcomes := by
    rintro ⟨e,member⟩
    rw [shape] at member
    obtain ⟨a,_,same⟩ := List.mem_map.mp member
    cases same
  have order : (w.iterated.map outcomes.get).Perm outcomes := by
    have mapped := (w.all_done fine).map outcomes.get
    rwa [List.map_get_finRange] at mapped
  obtain ⟨collected,gathered⟩ := responses_of_fine fun ⟨e,member⟩ => fine ⟨e,order.mem_iff.mp member⟩
  refine ⟨collected,returns_iterated gathered,?_⟩
  rw [gathered,shape] at order
  exact (List.map_perm_map_iff fun _ _ same => Except.ok.inj same).mp order

private theorem inTaskOrder_iff (w : Waited outcomes) :
    InTaskOrder outcomes (_futures_wait w) ↔ (∃ e, .error e ∈ outcomes) ∨ LinesUp w := by
  constructor
  · intro ordered
    by_cases failure : ∃ e, .error e ∈ outcomes
    · exact .inl failure
    · obtain ⟨responses,shape⟩ := responses_of_fine failure
      exact .inr ((mapM_get_ok.mp (ordered.returns responses shape)).trans shape.symm)
  · intro either
    refine ⟨?_,raises_of_failure⟩
    intro responses shape
    rcases either with ⟨e,member⟩ | lines
    · rw [shape] at member
      obtain ⟨a,_,same⟩ := List.mem_map.mp member
      cases same
    · exact returns_iterated (lines.trans shape)

private theorem exists_first (i : Fin outcomes.length) : ∃ w : Waited outcomes, w.iterated.head? = some i := by
  have order : (i :: (List.finRange outcomes.length).erase i).Perm (List.finRange outcomes.length) :=
    (List.perm_cons_erase (List.mem_finRange i)).symm
  exact ⟨.whole _ order,rfl⟩

theorem every_inTaskOrder_iff (outcomes : List (Except ε α)) :
    (∀ w : Waited outcomes, InTaskOrder outcomes (_futures_wait w)) ↔
      (∃ e, .error e ∈ outcomes) ∨ ∀ a ∈ outcomes, ∀ b ∈ outcomes, a = b := by
  simp only [inTaskOrder_iff]
  constructor
  · intro every
    by_cases failure : ∃ e, .error e ∈ outcomes
    · exact .inl failure
    · right
      have first (a : Except ε α) (member : a ∈ outcomes) : outcomes.head? = some a := by
        obtain ⟨i,found⟩ := List.get_of_mem member
        obtain ⟨w,starts⟩ := exists_first i
        rw [← (every w).resolve_left failure,List.head?_map,starts]
        exact congrArg some found
      intro a here b there
      exact Option.some.inj ((first a here).symm.trans (first b there))
  · rintro (failure | same) w
    · exact .inl failure
    · by_cases failure : ∃ e, .error e ∈ outcomes
      · exact .inl failure
      · right
        apply List.ext_getElem
        · rw [List.length_map,(w.all_done failure).length_eq,List.length_finRange]
        · intro n here there
          rw [List.getElem_map]
          exact same _ (outcomes.get_mem _) _ (List.getElem_mem there)

/-- In every run the responses stand in the order of the tasks if a task fails or all have
the same response; in one run also if the set is iterated as if it were in that order. -/
theorem results_in_task_order {E : Type} (sync_send : Nat → List (ErTask E) → E → Except ε α)
    (tasks : List (List (ErTask E) × E)) :
    ((∀ w, InTaskOrder (async_call sync_send tasks) (block_submit_unary_unit_tasks sync_send tasks w)) ↔
      (∃ e, .error e ∈ async_call sync_send tasks) ∨
        ∀ a ∈ async_call sync_send tasks, ∀ b ∈ async_call sync_send tasks, a = b) ∧
    ∀ w, InTaskOrder (async_call sync_send tasks) (block_submit_unary_unit_tasks sync_send tasks w) ↔
      (∃ e, .error e ∈ async_call sync_send tasks) ∨ LinesUp w :=
  ⟨every_inTaskOrder_iff _,inTaskOrder_iff⟩

/-- Two tasks that succeed; the set starts with the second. -/
theorem results_out_of_order :
    let sync_send : Nat → List (ErTask Unit) → Unit → Except Unit Nat := fun n _ _ => .ok n
    ∃ w, block_submit_unary_unit_tasks sync_send [([],()),([],())] w = .ok [1,0] ∧
      ¬ InTaskOrder (async_call sync_send [([],()),([],())])
        (block_submit_unary_unit_tasks sync_send [([],()),([],())] w) := by
  let w : Waited [(.ok 0 : Except Unit Nat),.ok 1] := .whole [1,0] (by decide)
  refine ⟨w,rfl,fun ordered => ?_⟩
  have swapped : Except.ok [1,0] = (Except.ok [0,1] : Except Unit (List Nat)) := ordered.returns [0,1] rfl
  cases swapped

end Eggroll.SubmitUtils
