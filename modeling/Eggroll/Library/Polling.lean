import Mathlib.Algebra.BigOperators.Group.Finset.Basic
import Mathlib.Data.Countable.Basic
import Mathlib.Data.Nat.Pairing
import Eggroll.Library.System

/-! Components that poll. A step of a component does a piece of the work or only looks whether
there is some; a component that is ready for work comes to it after finitely many looks, and
the looks of the others do not put it off. Where some component is ready until the goal is
reached, every fair run reaches it. -/
namespace Library.System

universe u v
variable {σ : Type u} {ι : Type v}

theorem exists_fair (ι : Type v) [Countable ι] [Nonempty ι] : ∃ schedule : ℕ → ι, Fair schedule := by
  obtain ⟨turn,onto⟩ := exists_surjective_nat ι
  refine ⟨fun n => turn n.unpair.1,fun a n => ?_⟩
  obtain ⟨code,rfl⟩ := onto a
  exact ⟨Nat.pair code n,Nat.right_le_pair code n,by simp⟩

structure Polling (S : System σ ι) (P goal : σ → Prop) where
  work : σ → ℕ
  ready : σ → ι → Prop
  /-- The looks of a component that is ready before it does its work. -/
  distance : σ → ι → ℕ
  limit : ℕ
  near : ∀ s a, distance s a < limit
  preserved : ∀ s a t, P s → S.step s a = some t → P t
  able : ∀ s, P s → ¬ goal s → ∃ a, ready s a
  enabled : ∀ s a, P s → ready s a → ∃ t, S.step s a = some t
  moved : ∀ s a t, P s → S.step s a = some t → work t < work s ∨
    work t = work s ∧ ready t = ready s ∧ (∀ b, b ≠ a → distance t b = distance s b) ∧
      (ready s a → distance t a < distance s a)

namespace Polling
variable {S : System σ ι} {P goal : σ → Prop} [Nonempty ι]

/-- The component that is waited for: a choice from the ready ones that a look leaves alone. -/
noncomputable def helpful (polling : Polling S P goal) (s : σ) : ι := Classical.epsilon (polling.ready s)

noncomputable def measure (polling : Polling S P goal) (s : σ) : ℕ :=
  polling.limit * polling.work s + polling.distance s (polling.helpful s)

theorem measure_lt (polling : Polling S P goal) {s t : σ} (less : polling.work t < polling.work s) :
    polling.measure t < polling.measure s := by
  have close := polling.near t (polling.helpful t)
  calc polling.measure t < polling.limit * polling.work t + polling.limit := Nat.add_lt_add_left close _
    _ = polling.limit * (polling.work t + 1) := rfl
    _ ≤ polling.limit * polling.work s := Nat.mul_le_mul_left _ less
    _ ≤ polling.measure s := Nat.le_add_right _ _

theorem helpful_ready (polling : Polling S P goal) {s : σ} (holds : P s) (open_ : ¬ goal s) :
    polling.ready s (polling.helpful s) :=
  Classical.epsilon_spec (polling.able s holds open_)

theorem moved_measure (polling : Polling S P goal) {s t : σ} {a : ι} (holds : P s) (open_ : ¬ goal s)
    (stepped : S.step s a = some t) : polling.measure t < polling.measure s ∨
      a ≠ polling.helpful s ∧ polling.measure t = polling.measure s ∧ polling.helpful t = polling.helpful s := by
  obtain less | ⟨same,ready,others,nearer⟩ := polling.moved s a t holds stepped
  · exact .inl (polling.measure_lt less)
  have kept : polling.helpful t = polling.helpful s := by rw [helpful,helpful,ready]
  by_cases mine : a = polling.helpful s
  · have less := nearer (mine ▸ polling.helpful_ready holds open_)
    rw [mine] at less
    left
    rw [measure,measure,same,kept]
    exact Nat.add_lt_add_left less _
  · refine .inr ⟨mine,?_,kept⟩
    rw [measure,measure,same,kept,others _ (Ne.symm mine)]

noncomputable def progress (polling : Polling S P goal) : Progress S P goal where
  measure := polling.measure
  helpful := polling.helpful
  preserved := polling.preserved
  enabled s holds open_ := by
    obtain ⟨t,stepped⟩ := polling.enabled s _ holds (polling.helpful_ready holds open_)
    refine ⟨t,stepped,.inr ((polling.moved_measure holds open_ stepped).resolve_right ?_)⟩
    exact fun other => other.1 rfl
  bounded _ _ _ holds open_ stepped :=
    .inr ((polling.moved_measure holds open_ stepped).imp_right And.right)

theorem reaches (polling : Polling S P goal) {s : σ} (initial : P s) {schedule : ℕ → ι}
    (fair : Fair schedule) : ∃ n, goal (S.trace s schedule n) :=
  polling.progress.reaches initial fair

end Polling

end Library.System

namespace Library

theorem sum_exchange {f g : ℕ → ℕ} {n p : ℕ} (inside : p < n) (others : ∀ q, q ≠ p → g q = f q) :
    ∑ q ∈ Finset.range n, g q + f p = ∑ q ∈ Finset.range n, f q + g p := by
  have member := Finset.mem_range.mpr inside
  have rest : ∑ q ∈ (Finset.range n).erase p, g q = ∑ q ∈ (Finset.range n).erase p, f q :=
    Finset.sum_congr rfl fun q listed => others q (Finset.ne_of_mem_erase listed)
  rw [← Finset.add_sum_erase _ g member,← Finset.add_sum_erase _ f member,rest]
  omega

end Library
