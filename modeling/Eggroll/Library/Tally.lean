import Mathlib.Algebra.Ring.Nat
import Mathlib.Data.List.AList

/-! Counting numbered deliveries. The items of a list are numbered from one; a receiver
notes under each number it gets the size of that item, in any order and as often as it
gets it. As many numbers as items mean that no item is missing. -/
namespace Library
variable {α : Type}

abbrev Counts := AList (fun _ : ℕ => ℕ)

/-- `sum(counts.values())`. -/
def Counts.total (counts : Counts) : ℕ := (counts.entries.map (fun entry => entry.2)).sum

/-- Every number is that of an item, and what is noted under it is the item's size. -/
def Tally (items : List α) (size : α → ℕ) (counts : Counts) : Prop :=
  ∀ number count, counts.lookup number = some count →
    ∃ i item, number = i + 1 ∧ items[i]? = some item ∧ count = size item

namespace Tally
variable {items : List α} {size : α → ℕ} {counts : Counts}

theorem empty : Tally items size ∅ := fun _ _ found => by simp at found

theorem insert (tally : Tally items size counts) {i : ℕ} {item : α} (inside : items[i]? = some item) :
    Tally items size (counts.insert (i + 1) (size item)) := by
  intro number count found
  by_cases same : number = i + 1
  · subst same
    rw [AList.lookup_insert] at found
    exact ⟨i,item,rfl,inside,(Option.some.inj found).symm⟩
  · rw [AList.lookup_insert_ne same] at found
    exact tally number count found

theorem bounded (tally : Tally items size counts) {number : ℕ} (member : number ∈ counts.keys) :
    1 ≤ number ∧ number ≤ items.length := by
  obtain ⟨count,found⟩ := Option.isSome_iff_exists.mp (AList.lookup_isSome.mpr (AList.mem_keys.mp member))
  obtain ⟨i,item,rfl,inside,-⟩ := tally number count found
  obtain ⟨within,-⟩ := List.getElem?_eq_some_iff.mp inside
  omega

theorem complete (tally : Tally items size counts) (full : counts.keys.length = items.length) :
    counts.keys.Perm (List.range' 1 items.length) := by
  have subset : counts.keys ⊆ List.range' 1 items.length := by
    intro number member
    have := tally.bounded member
    rw [List.mem_range'_1]
    omega
  exact (List.subperm_of_subset (AList.keys_nodup counts) subset).perm_of_length_le
    (by rw [List.length_range',full])

theorem received (tally : Tally items size counts) (full : counts.keys.length = items.length)
    (number : ℕ) : number ∈ counts ↔ 1 ≤ number ∧ number ≤ items.length := by
  rw [AList.mem_keys,(tally.complete full).mem_iff,List.mem_range'_1]
  omega

theorem total (tally : Tally items size counts) (full : counts.keys.length = items.length) :
    counts.total = (items.map size).sum := by
  let noted (number : ℕ) : ℕ := ((items[number - 1]?).map size).getD 0
  have values : counts.entries.map (fun entry => entry.2) = counts.keys.map noted := by
    rw [AList.keys,List.keys,List.map_map]
    apply List.map_congr_left
    rintro ⟨number,count⟩ member
    obtain ⟨i,item,rfl,inside,rfl⟩ := tally number count (AList.mem_lookup_iff.mpr member)
    simp [noted,inside]
  have sizes : (List.range' 1 items.length).map noted = items.map size := by
    apply List.ext_getElem
    · simp
    · intro i _ within
      rw [List.length_map] at within
      simp [noted,List.getElem?_eq_getElem within]
  calc counts.total = (counts.keys.map noted).sum := by rw [Counts.total,values]
    _ = ((List.range' 1 items.length).map noted).sum := ((tally.complete full).map noted).sum_nat
    _ = (items.map size).sum := by rw [sizes]

end Tally
end Library
