import Mathlib.Data.List.Nodup
import Mathlib.Algebra.BigOperators.Group.List.Basic
import Mathlib.Algebra.Ring.Int.Defs

/-! Sums over the entries of a ledger that are counted. An entry is counted or not by the
class it stands in; entries have distinct keys, so that what happens to one entry changes a
sum by this entry's weight alone. -/
namespace Library
variable {α β K : Type} {counted counted' : α → Bool} {weight weight' : α → ℤ} {entries : List α}

def weigh (counted : α → Bool) (weight : α → ℤ) (entries : List α) : ℤ :=
  ((entries.filter counted).map weight).sum

@[simp] theorem weigh_nil : weigh counted weight [] = 0 := rfl

theorem weigh_cons (a : α) : weigh counted weight (a :: entries) =
    (if counted a then weight a else 0) + weigh counted weight entries := by
  cases is : counted a <;> simp [weigh,is]

theorem weigh_append (more : List α) :
    weigh counted weight (entries ++ more) = weigh counted weight entries + weigh counted weight more := by
  simp [weigh]

theorem weigh_map (f : β → α) (entries : List β) :
    weigh counted weight (entries.map f) = weigh (counted ∘ f) (weight ∘ f) entries := by
  simp [weigh,List.filter_map]

theorem weigh_same (same : ∀ a ∈ entries, (if counted a then weight a else 0) = if counted' a then weight' a else 0) :
    weigh counted weight entries = weigh counted' weight' entries := by
  induction entries with
  | nil => rfl
  | cons a rest ih =>
    obtain ⟨head,tail⟩ := List.forall_mem_cons.mp same
    rw [weigh_cons,weigh_cons,ih tail,head]

theorem weigh_congr (same : ∀ a ∈ entries, counted a = counted' a)
    (weights : ∀ a ∈ entries, counted a = true → weight a = weight' a) :
    weigh counted weight entries = weigh counted' weight' entries := by
  refine weigh_same fun a member => ?_
  rw [← same a member]
  split
  · exact weights a member ‹_›
  · rfl

theorem weigh_nonneg (heavy : ∀ a ∈ entries, counted a = true → 0 ≤ weight a) : 0 ≤ weigh counted weight entries := by
  induction entries with
  | nil => exact Int.le_refl 0
  | cons a rest ih =>
    obtain ⟨head,tail⟩ := List.forall_mem_cons.mp heavy
    have := ih tail
    rw [weigh_cons]
    split
    · rename_i is
      have := head is
      omega
    · omega

theorem weigh_mono (more : ∀ a ∈ entries, counted a = true → counted' a = true)
    (heavy : ∀ a ∈ entries, counted' a = true → 0 ≤ weight a) :
    weigh counted weight entries ≤ weigh counted' weight entries := by
  induction entries with
  | nil => exact Int.le_refl 0
  | cons a rest ih =>
    obtain ⟨head,tail⟩ := List.forall_mem_cons.mp more
    obtain ⟨own,others⟩ := List.forall_mem_cons.mp heavy
    have := ih tail others
    rw [weigh_cons,weigh_cons]
    cases is : counted a with
    | true => simp [head is,this]
    | false =>
      cases is' : counted' a with
      | true => simpa using Int.add_le_add (own is') this
      | false => simpa using this

theorem weigh_add_le (more : ∀ a ∈ entries, counted a = true → counted' a = true)
    (heavy : ∀ a ∈ entries, counted' a = true → 0 ≤ weight a) {a : α} (member : a ∈ entries)
    (uncounted : counted a = false) (counts : counted' a = true) :
    weigh counted weight entries + weight a ≤ weigh counted' weight entries := by
  induction entries with
  | nil => cases member
  | cons b rest ih =>
    obtain ⟨head,tail⟩ := List.forall_mem_cons.mp more
    obtain ⟨own,others⟩ := List.forall_mem_cons.mp heavy
    rw [weigh_cons,weigh_cons]
    rcases List.mem_cons.mp member with rfl | later
    · have := weigh_mono tail others
      simp only [uncounted,counts,if_true,Bool.false_eq_true,if_false]
      omega
    · have := ih tail others later
      cases is : counted b with
      | true =>
        simp only [head is,if_true]
        omega
      | false =>
        cases is' : counted' b with
        | true =>
          have := own is'
          simp only [if_true,Bool.false_eq_true,if_false]
          omega
        | false =>
          simp only [Bool.false_eq_true,if_false]
          omega

theorem le_weigh (heavy : ∀ a ∈ entries, counted a = true → 0 ≤ weight a) {a : α} (member : a ∈ entries)
    (counts : counted a = true) : weight a ≤ weigh counted weight entries := by
  have nothing : weigh (fun _ => false) weight entries = 0 := by simp [weigh]
  have more : weigh (fun _ => false) weight entries + weight a ≤ weigh counted weight entries :=
    weigh_add_le (fun _ _ is => by cases is) heavy member rfl counts
  omega

theorem weigh_change {key : α → K} (distinct : (entries.map key).Nodup) {a : α} (member : a ∈ entries)
    (same : ∀ b ∈ entries, key b ≠ key a → counted' b = counted b) :
    weigh counted' weight entries =
      weigh counted weight entries + ((if counted' a then weight a else 0) - if counted a then weight a else 0) := by
  induction entries with
  | nil => cases member
  | cons b rest ih =>
    rw [List.map_cons,List.nodup_cons] at distinct
    obtain ⟨head,tail⟩ := List.forall_mem_cons.mp same
    rw [weigh_cons,weigh_cons]
    rcases List.mem_cons.mp member with rfl | later
    · have others : weigh counted' weight rest = weigh counted weight rest := by
        refine weigh_congr (fun b inside => tail b inside fun is => distinct.1 ?_) fun _ _ _ => rfl
        exact List.mem_map.mpr ⟨b,inside,is⟩
      omega
    · have other : key b ≠ key a := fun is => distinct.1 (is ▸ List.mem_map_of_mem later)
      rw [ih distinct.2 later tail,head other]
      omega

end Library
