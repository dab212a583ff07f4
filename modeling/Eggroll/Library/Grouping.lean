import Mathlib.Data.List.Dedup
import Eggroll.Library.Keyed

/-! Keyed values grouped into a dictionary of lists, and what every listing of such a
dictionary has in common, whatever the order of its keys. -/
namespace Library

section
variable {K V : Type} [DecidableEq K]

def addTo (k : K) (v : V) : List (K × List V) → List (K × List V)
  | [] => [(k,[v])]
  | (l,values) :: rest => if l = k then (l,values ++ [v]) :: rest else (l,values) :: addTo k v rest

/-- The values under their keys, one after the other; keys keep the order of their first value. -/
def group (pairs : List (K × V)) : List (K × List V) :=
  pairs.foldl (fun groups pair => addTo pair.1 pair.2 groups) []

/-- Each key that occurs has one group, of its values in their order. -/
structure Grouped (pairs : List (K × V)) (groups : List (K × List V)) : Prop where
  distinct : (groups.map Prod.fst).Nodup
  values : ∀ entry ∈ groups, entry.2 = valuesOf entry.1 pairs
  keys : ∀ k, k ∈ groups.map Prod.fst ↔ k ∈ pairs.map Prod.fst

theorem addTo_keys (k : K) (v : V) (groups : List (K × List V)) :
    (addTo k v groups).map Prod.fst =
      if k ∈ groups.map Prod.fst then groups.map Prod.fst else groups.map Prod.fst ++ [k] := by
  induction groups with
  | nil => rfl
  | cons entry rest ih =>
    obtain ⟨l,values⟩ := entry
    by_cases same : l = k
    · simp [addTo,same]
    · rw [addTo,if_neg same,List.map_cons,ih,List.map_cons]
      by_cases later : k ∈ rest.map Prod.fst
      · rw [if_pos later,if_pos (List.mem_cons_of_mem _ later)]
      · rw [if_neg later,if_neg (List.not_mem_cons_of_ne_of_not_mem (Ne.symm same) later),List.cons_append]

theorem mem_addTo {k : K} {v : V} {groups : List (K × List V)} (distinct : (groups.map Prod.fst).Nodup)
    {entry : K × List V} (member : entry ∈ addTo k v groups) :
    entry.1 ≠ k ∧ entry ∈ groups ∨ (∃ old, (k,old) ∈ groups ∧ entry = (k,old ++ [v])) ∨
      k ∉ groups.map Prod.fst ∧ entry = (k,[v]) := by
  induction groups with
  | nil => exact .inr (.inr ⟨List.not_mem_nil,List.mem_singleton.mp member⟩)
  | cons first rest ih =>
    obtain ⟨l,values⟩ := first
    rw [List.map_cons,List.nodup_cons] at distinct
    by_cases same : l = k
    · subst same
      rw [addTo,if_pos rfl] at member
      rcases List.mem_cons.mp member with rfl | later
      · exact .inr (.inl ⟨values,List.mem_cons_self,rfl⟩)
      · have known : entry.1 ∈ rest.map Prod.fst := List.mem_map_of_mem later
        exact .inl ⟨fun same => distinct.1 (same ▸ known),List.mem_cons_of_mem _ later⟩
    · rw [addTo,if_neg same] at member
      rcases List.mem_cons.mp member with rfl | later
      · exact .inl ⟨same,List.mem_cons_self⟩
      · rcases ih distinct.2 later with ⟨other,there⟩ | ⟨old,there,rfl⟩ | ⟨absent,rfl⟩
        · exact .inl ⟨other,List.mem_cons_of_mem _ there⟩
        · exact .inr (.inl ⟨old,List.mem_cons_of_mem _ there,rfl⟩)
        · exact .inr (.inr ⟨List.not_mem_cons_of_ne_of_not_mem (Ne.symm same) absent,rfl⟩)

theorem Grouped.nil : Grouped ([] : List (K × V)) [] :=
  ⟨List.nodup_nil,fun _ member => absurd member List.not_mem_nil,fun _ => Iff.rfl⟩

theorem Grouped.add {pairs : List (K × V)} {groups : List (K × List V)} (grouped : Grouped pairs groups)
    (k : K) (v : V) : Grouped (pairs ++ [(k,v)]) (addTo k v groups) := by
  have keys_now : ∀ l, l ∈ (addTo k v groups).map Prod.fst ↔ l ∈ groups.map Prod.fst ∨ l = k := by
    intro l
    rw [addTo_keys]
    split
    · rename_i present
      exact ⟨.inl,fun member => member.elim id (· ▸ present)⟩
    · simp
  refine ⟨?_,fun entry member => ?_,fun l => ?_⟩
  · rw [addTo_keys]
    split
    · exact grouped.distinct
    · rename_i absent
      exact List.nodup_append.mpr ⟨grouped.distinct,List.nodup_singleton k,fun l inside m single same =>
        absent (List.mem_singleton.mp single ▸ same ▸ inside)⟩
  · rw [valuesOf_append,valuesOf_singleton]
    rcases mem_addTo grouped.distinct member with ⟨other,there⟩ | ⟨old,there,rfl⟩ | ⟨absent,rfl⟩
    · rw [if_neg (Ne.symm other),List.append_nil]
      exact grouped.values entry there
    · rw [if_pos rfl,← grouped.values _ there]
    · rw [if_pos rfl,valuesOf_eq_nil fun present => absent ((grouped.keys k).mpr present)]
      rfl
  · rw [keys_now,grouped.keys,List.map_append,List.mem_append]
    simp

theorem Grouped.foldl {before pairs : List (K × V)} {groups : List (K × List V)} (grouped : Grouped before groups) :
    Grouped (before ++ pairs) (pairs.foldl (fun groups pair => addTo pair.1 pair.2 groups) groups) := by
  induction pairs generalizing before groups with
  | nil => simpa using grouped
  | cons pair rest ih => simpa using ih (grouped.add pair.1 pair.2)

theorem group_grouped (pairs : List (K × V)) : Grouped pairs (group pairs) := Grouped.nil.foldl

namespace Grouped
variable {pairs : List (K × V)} {groups : List (K × List V)}

theorem perm (grouped : Grouped pairs groups) {other : List (K × List V)} (same : other.Perm groups) :
    Grouped pairs other where
  distinct := (same.map Prod.fst).nodup_iff.mpr grouped.distinct
  values := fun entry member => grouped.values entry (same.mem_iff.mp member)
  keys := fun k => (same.map Prod.fst).mem_iff.trans (grouped.keys k)

theorem lookup (grouped : Grouped pairs groups) {k : K} (present : k ∈ pairs.map Prod.fst) :
    groups.lookup k = some (valuesOf k pairs) := by
  obtain ⟨⟨l,values⟩,member,rfl⟩ := List.mem_map.mp ((grouped.keys k).mpr present)
  have these : values = valuesOf l pairs := grouped.values _ member
  have distinct := grouped.distinct
  clear grouped present
  subst these
  induction groups with
  | nil => contradiction
  | cons entry rest ih =>
    rw [List.map_cons,List.nodup_cons] at distinct
    rcases List.mem_cons.mp member with rfl | later
    · rw [List.lookup_cons,beq_self_eq_true]
    · have known : l ∈ rest.map Prod.fst := List.mem_map.mpr ⟨_,later,rfl⟩
      have other : l ≠ entry.1 := fun same => distinct.1 (same ▸ known)
      rw [List.lookup_cons,beq_eq_false_iff_ne.mpr other]
      exact ih distinct.2 later

theorem nonempty (grouped : Grouped pairs groups) {entry : K × List V} (member : entry ∈ groups) :
    entry.2 ≠ [] := by
  obtain ⟨pair,inside,key⟩ := List.mem_map.mp ((grouped.keys entry.1).mp (List.mem_map_of_mem member))
  have there : pair.2 ∈ entry.2 := by
    rw [grouped.values entry member,← key]
    exact mem_valuesOf.mpr inside
  exact List.ne_nil_of_mem there

/-- Listing the groups one after the other reorders the values and loses none. -/
theorem values_perm (grouped : Grouped pairs groups) :
    (groups.flatMap Prod.snd).Perm (pairs.map Prod.snd) := by
  have listed : groups.flatMap Prod.snd = (groups.map Prod.fst).flatMap fun k => valuesOf k pairs := by
    rw [List.flatMap_map]
    exact List.flatMap_congr grouped.values
  rw [listed]
  exact (perm_flatMap_valuesOf grouped.distinct pairs fun pair member =>
    (grouped.keys pair.1).mpr (List.mem_map_of_mem member)).symm

theorem valuesOf_with_key (k : K) (pairs : List (K × V)) :
    valuesOf k (pairs.map fun pair => (pair.1,pair)) = (valuesOf k pairs).map fun v => (k,v) := by
  induction pairs with
  | nil => rfl
  | cons pair rest ih =>
    rw [List.map_cons,valuesOf_cons,valuesOf_cons,ih]
    by_cases same : pair.1 = k
    · subst same
      simp
    · simp [same]

theorem pairs_perm (grouped : Grouped pairs groups) :
    (groups.flatMap fun entry => entry.2.map fun v => (entry.1,v)).Perm pairs := by
  have listed : (groups.flatMap fun entry => entry.2.map fun v => (entry.1,v)) =
      (groups.map Prod.fst).flatMap fun k => valuesOf k (pairs.map fun pair => (pair.1,pair)) := by
    rw [List.flatMap_map]
    refine List.flatMap_congr fun entry member => ?_
    rw [valuesOf_with_key,← grouped.values entry member]
  rw [listed]
  refine (perm_flatMap_valuesOf grouped.distinct (pairs.map fun pair => (pair.1,pair)) ?_).symm.trans ?_
  · intro _ member
    obtain ⟨pair,inside,rfl⟩ := List.mem_map.mp member
    exact (grouped.keys pair.1).mpr (List.mem_map_of_mem inside)
  · rw [List.map_map]
    exact .of_eq (List.map_id' pairs)

end Grouped

/-- The entries of a map from keys to the values grouped under them, in the order in which
the map gives them. -/
structure Listing (pairs : List (K × V)) where
  entries : List (K × List V)
  listed : entries.Perm (group pairs)

namespace Listing
variable {pairs : List (K × V)} (map : Listing pairs)

theorem grouped : Grouped pairs map.entries := (group_grouped pairs).perm map.listed

theorem length_eq : map.entries.length = (pairs.map Prod.fst).dedup.length := by
  have same : (map.entries.map Prod.fst).Perm (pairs.map Prod.fst).dedup :=
    (List.perm_ext_iff_of_nodup map.grouped.distinct (List.nodup_dedup _)).mpr fun k =>
      (map.grouped.keys k).trans List.mem_dedup.symm
  simpa using same.length_eq

end Listing

end
end Library
