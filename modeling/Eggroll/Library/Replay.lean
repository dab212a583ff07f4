import Eggroll.Library.Keyed
import Eggroll.Library.Tally

/-! Deliveries of one list, each of which takes some first part of it, and one of which takes
it all: what their sum and their last item come to, against those of the list itself. -/
namespace Library

theorem getLast?_eq_of_same {α : Type} {first second : List α} (same : ∀ x ∈ first, ∀ y ∈ second, x = y)
    (empty : first = [] ↔ second = []) : first.getLast? = second.getLast? := by
  by_cases none : first = []
  · rw [none,empty.mp none]
  · have some := fun given => none (empty.mpr given)
    rw [List.getLast?_eq_some_getLast none,List.getLast?_eq_some_getLast some,
      same _ (List.getLast_mem none) _ (List.getLast_mem some)]

theorem Counts.total_congr {first second : Counts} (same : ∀ k, first.lookup k = second.lookup k) :
    first.total = second.total := by
  have perm : first.entries.Perm second.entries :=
    List.lookup_ext first.nodupKeys second.nodupKeys fun k v => by
      have := same k
      simp only [AList.lookup] at this
      rw [this]
  exact (perm.map _).sum_nat

theorem Counts.keys_length {counts : Counts} {n : ℕ} (numbers : ∀ k, k ∈ counts ↔ 1 ≤ k ∧ k ≤ n) :
    counts.keys.length = n := by
  have perm : counts.keys.Perm (List.range' 1 n) := by
    rw [List.perm_ext_iff_of_nodup (AList.keys_nodup counts) (List.nodup_range' : (List.range' 1 n).Nodup)]
    intro k
    rw [← AList.mem_keys,numbers,List.mem_range'_1]
    omega
  rw [perm.length_eq,List.length_range']

section
variable {δ : Type} {taken : δ → ℕ}

/-- The sum counts each item once exactly when no two deliveries share an item but zeros. -/
theorem sum_flatMap_take {sizes : List ℕ} {deliveries : List δ}
    (whole : ∃ d ∈ deliveries, sizes.length ≤ taken d) :
    (deliveries.flatMap fun d => sizes.take (taken d)).sum = sizes.sum ↔
      deliveries.Pairwise fun d e => ∀ n ∈ sizes.take (min (taken d) (taken e)), n = 0 := by
  obtain ⟨d,member,all⟩ := whole
  obtain ⟨before,after,rfl⟩ := List.append_of_mem member
  have left (e : δ) : sizes.take (min (taken e) (taken d)) = sizes.take (taken e) := by
    rw [← List.take_take,List.take_of_length_le all]
  have right (e : δ) : sizes.take (min (taken d) (taken e)) = sizes.take (taken e) := by
    rw [min_comm,left]
  -- every other delivery shares with this one what it takes
  have others : (before ++ d :: after).Pairwise (fun d e => ∀ n ∈ sizes.take (min (taken d) (taken e)), n = 0) ↔
      ∀ e ∈ before ++ after, ∀ n ∈ sizes.take (taken e), n = 0 := by
    constructor
    · intro apart e other
      obtain ⟨_,follows,cross⟩ := List.pairwise_append.mp apart
      rcases List.mem_append.mp other with early | late
      · rw [← left e]
        exact cross e early d List.mem_cons_self
      · rw [← right e]
        exact (List.pairwise_cons.mp follows).1 e late
    · intro nothing
      have shared (e : δ) (other : e ∈ before ++ after) (f : δ) (n : ℕ)
          (inside : n ∈ sizes.take (min (taken e) (taken f))) : n = 0 := by
        refine nothing e other n ?_
        rw [min_comm,← List.take_take] at inside
        exact List.mem_of_mem_take inside
      have shared' (e : δ) (other : e ∈ before ++ after) (f : δ) (n : ℕ)
          (inside : n ∈ sizes.take (min (taken f) (taken e))) : n = 0 :=
        shared e other f n (by rwa [min_comm])
      rw [List.pairwise_append,List.pairwise_cons]
      refine ⟨List.pairwise_of_forall_mem_list ?_,⟨?_,List.pairwise_of_forall_mem_list ?_⟩,?_⟩
      · exact fun e early f _ => shared e (List.mem_append_left _ early) f
      · exact fun e late => shared' e (List.mem_append_right _ late) d
      · exact fun e late f _ => shared e (List.mem_append_right _ late) f
      · exact fun e early f _ => shared e (List.mem_append_left _ early) f
  have split : ((before ++ d :: after).flatMap fun d => sizes.take (taken d)).sum =
      ((before ++ after).flatMap fun d => sizes.take (taken d)).sum + sizes.sum := by
    simp only [List.flatMap_append,List.flatMap_cons,List.sum_append,List.take_of_length_le all]
    omega
  rw [others,split,Nat.add_eq_right,List.sum_eq_zero_iff_forall_eq_nat]
  simp only [List.mem_flatMap]
  exact ⟨fun zero e other n inside => zero n ⟨e,other,inside⟩,fun zero n ⟨e,other,inside⟩ => zero e other n inside⟩

def Followed (length : ℕ) (taken : δ → ℕ) : List δ → Prop
  | [] => True
  | d :: after => (0 < taken d → taken d < length → ∃ e ∈ after, length ≤ taken e) ∧ Followed length taken after

theorem Followed.whole {length : ℕ} {deliveries : List δ} (followed : Followed length taken deliveries)
    (begun : ∃ d ∈ deliveries, 0 < taken d) : ∃ d ∈ deliveries, length ≤ taken d := by
  induction deliveries with
  | nil => simp at begun
  | cons d after ih =>
    by_cases later : ∃ e ∈ after, 0 < taken e
    · obtain ⟨e,member,all⟩ := ih followed.2 later
      exact ⟨e,List.mem_cons_of_mem _ member,all⟩
    · obtain ⟨e,member,some⟩ := begun
      rcases List.mem_cons.mp member with rfl | member
      · by_cases short : taken e < length
        · obtain ⟨f,inside,all⟩ := followed.1 some short
          exact ⟨f,List.mem_cons_of_mem _ inside,all⟩
        · exact ⟨e,List.mem_cons_self,Nat.le_of_not_lt short⟩
      · exact absurd ⟨e,member,some⟩ later

theorem getLast?_take {α : Type} {items : List α} (distinct : items.Nodup) (some_item : items ≠ []) (n : ℕ) :
    (items.take n = [] ∨ (items.take n).getLast? = items.getLast?) ↔ (0 < n → items.length ≤ n) := by
  have length := List.length_pos_iff.mpr some_item
  constructor
  · rintro same positive
    have some_taken : items.take n ≠ [] := by
      simp [List.take_eq_nil_iff,some_item]
      omega
    have last := same.resolve_left some_taken
    by_contra short
    rw [List.getLast?_take,if_neg (by omega),List.getLast?_eq_getElem?,
      List.getElem?_eq_getElem (by omega : n - 1 < items.length),
      List.getElem?_eq_getElem (by omega : items.length - 1 < items.length)] at last
    have position := (List.Nodup.getElem_inj_iff distinct).mp (Option.some.inj last)
    omega
  · intro all
    rcases Nat.eq_zero_or_pos n with rfl | positive
    · exact .inl List.take_zero
    · exact .inr (by rw [List.take_of_length_le (all positive)])

theorem getLast?_flatMap_take {α : Type} {items : List α} (distinct : items.Nodup) (some_item : items ≠ [])
    (deliveries : List δ) :
    ((deliveries.flatMap fun d => items.take (taken d)) = [] ∨
        (deliveries.flatMap fun d => items.take (taken d)).getLast? = items.getLast?) ↔
      Followed items.length taken deliveries := by
  have length := List.length_pos_iff.mpr some_item
  induction deliveries with
  | nil => simp [Followed]
  | cons d after ih =>
    rw [List.flatMap_cons,Followed]
    refine Iff.trans ?_ (and_congr_right fun _ => ih)
    by_cases silent : (after.flatMap fun d => items.take (taken d)) = []
    · have none : ¬ ∃ e ∈ after, items.length ≤ taken e := by
        rintro ⟨e,member,all⟩
        have taken_none := List.flatMap_eq_nil_iff.mp silent e member
        rw [List.take_of_length_le all] at taken_none
        exact some_item taken_none
      rw [silent,List.append_nil,getLast?_take distinct some_item]
      simp [none]
    · rw [List.getLast?_append_of_ne_nil _ silent]
      simp only [List.append_eq_nil_iff,silent,and_false,false_or]
      refine ⟨fun last => ⟨fun _ _ => ?_,last⟩,fun both => both.2⟩
      have followed := ih.mp (.inr last)
      refine followed.whole ?_
      by_contra none
      refine silent (List.flatMap_eq_nil_iff.mpr fun e member => ?_)
      have zero : taken e = 0 := Nat.eq_zero_of_not_pos fun positive => none ⟨e,member,positive⟩
      rw [zero,List.take_zero]

end
end Library
