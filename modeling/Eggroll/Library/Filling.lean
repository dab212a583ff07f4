import Mathlib.Algebra.Order.BigOperators.Group.List
import Mathlib.Algebra.Ring.Nat
import Mathlib.Data.List.Nodup
import Mathlib.Data.List.Perm.Basic

/-! Bins filled one after the other: every bin as often as it has room, and what the first
items of that list leave. -/
namespace Library

section
variable {K : Type} (room : K → ℕ)

def fill (bins : List K) : List K := bins.flatMap fun b => List.replicate (room b) b

theorem fill_length (bins : List K) : (fill room bins).length = (bins.map room).sum := by
  induction bins with
  | nil => rfl
  | cons b rest ih =>
    rw [fill,List.flatMap_cons,List.length_append,List.length_replicate,List.map_cons,List.sum_cons,← ih]
    rfl

theorem fill_cons (b : K) (bins : List K) : fill room (b :: bins) = List.replicate (room b) b ++ fill room bins :=
  List.flatMap_cons

theorem mem_fill {bins : List K} {b : K} (member : b ∈ fill room bins) : b ∈ bins := by
  obtain ⟨c,inside,there⟩ := List.mem_flatMap.mp member
  exact (List.eq_of_mem_replicate there) ▸ inside

variable [DecidableEq K]

theorem fill_count {bins : List K} (distinct : bins.Nodup) {b : K} (member : b ∈ bins) :
    (fill room bins).count b = room b := by
  induction bins with
  | nil => cases member
  | cons c rest ih =>
    rw [List.nodup_cons] at distinct
    rw [fill_cons,List.count_append]
    rcases List.mem_cons.mp member with rfl | later
    · rw [List.count_replicate_self,List.count_eq_zero_of_not_mem fun inside => distinct.1 (mem_fill room inside),
        Nat.add_zero]
    · have other : c ≠ b := fun same => distinct.1 (same ▸ later)
      rw [List.count_replicate,if_neg (by simpa using other),Nat.zero_add,ih distinct.2 later]

theorem take_fill_le {bins : List K} (distinct : bins.Nodup) (n : ℕ) {b : K} (member : b ∈ bins) :
    ((fill room bins).take n).count b ≤ room b := by
  rw [← fill_count room distinct member]
  exact (List.take_sublist n _).count_le b

theorem take_fill_partly {bins : List K} (distinct : bins.Nodup) (n : ℕ) {b c : K}
    (some_b : 0 < ((fill room bins).take n).count b) (less_b : ((fill room bins).take n).count b < room b)
    (some_c : 0 < ((fill room bins).take n).count c) (less_c : ((fill room bins).take n).count c < room c) : b = c := by
  induction bins generalizing n with
  | nil => simp [fill] at some_b
  | cons first rest ih =>
    rw [List.nodup_cons] at distinct
    rw [fill_cons,List.take_append,List.length_replicate,List.take_replicate,List.count_append]
      at some_b less_b some_c less_c
    by_cases early : n ≤ room first
    · -- the first bin takes all
      rw [Nat.sub_eq_zero_of_le early,List.take_zero,List.count_nil,Nat.add_zero,List.count_replicate] at some_b some_c
      have is_b : first = b := by
        by_contra other
        rw [if_neg (by simpa using other)] at some_b
        exact Nat.lt_irrefl 0 some_b
      have is_c : first = c := by
        by_contra other
        rw [if_neg (by simpa using other)] at some_c
        exact Nat.lt_irrefl 0 some_c
      exact is_b.symm.trans is_c
    · -- the first bin is full, and no other is among its items
      have none_later : ((fill room rest).take (n - room first)).count first = 0 :=
        List.count_eq_zero_of_not_mem fun inside => distinct.1 (mem_fill room ((List.take_sublist _ _).subset inside))
      have full : min n (room first) = room first := Nat.min_eq_right (by omega)
      have other {d : K} (less : List.count d (List.replicate (min n (room first)) first) +
          ((fill room rest).take (n - room first)).count d < room d) : first ≠ d := by
        rintro rfl
        rw [full,List.count_replicate_self,none_later] at less
        exact Nat.lt_irrefl _ less
      have apart_b := other less_b
      have apart_c := other less_c
      rw [List.count_replicate,if_neg (by simpa using apart_b),Nat.zero_add] at some_b less_b
      rw [List.count_replicate,if_neg (by simpa using apart_c),Nat.zero_add] at some_c less_c
      exact ih distinct.2 _ some_b less_b some_c less_c

end

section
variable {α : Type} [DecidableEq α]

theorem filter_not_mem_take {items : List α} (distinct : items.Nodup) (m : ℕ) :
    items.filter (fun x => x ∉ items.take m) = items.drop m := by
  have apart : (items.take m).Disjoint (items.drop m) := by
    rw [← List.take_append_drop m items] at distinct
    exact List.disjoint_of_nodup_append distinct
  conv_lhs => arg 2; rw [← List.take_append_drop m items]
  rw [List.filter_append,List.filter_eq_nil_iff.mpr fun x member => by simpa using member,List.nil_append]
  exact List.filter_eq_self.mpr fun x member => by simpa using fun before => apart before member

theorem find?_next_free (free : α → Prop) [DecidablePred free] {items : List α} (distinct : items.Nodup) (m : ℕ) :
    items.find? (fun x => free x ∧ x ∉ (items.filter fun x => free x).take m) =
      (items.filter fun x => free x)[m]? := by
  have both : items.filter (fun x => free x ∧ x ∉ (items.filter fun x => free x).take m) =
      (items.filter fun x => free x).filter fun x => x ∉ (items.filter fun x => free x).take m := by
    rw [List.filter_filter]
    exact List.filter_congr fun x _ => by simp [Bool.and_comm]
  rw [← List.head?_filter,both,filter_not_mem_take (distinct.filter _),List.head?_drop]

end
end Library
