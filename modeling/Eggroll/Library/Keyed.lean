import Mathlib.Data.List.Nodup
import Mathlib.Data.List.Perm.Basic

/-! Lists of keyed values: the values under one key, and what a reduction of them
leaves when the order they arrive in is arbitrary. -/
namespace Library

section
variable {K V : Type} [DecidableEq K]

def valuesOf (k : K) (pairs : List (K × V)) : List V :=
  (pairs.filter (fun pair => pair.1 = k)).map Prod.snd

@[simp] theorem valuesOf_nil (k : K) : valuesOf k ([] : List (K × V)) = [] := rfl

@[simp] theorem valuesOf_append (k : K) (first second : List (K × V)) :
    valuesOf k (first ++ second) = valuesOf k first ++ valuesOf k second := by
  simp [valuesOf]

theorem valuesOf_cons (k : K) (pair : K × V) (rest : List (K × V)) :
    valuesOf k (pair :: rest) = if pair.1 = k then pair.2 :: valuesOf k rest else valuesOf k rest := by
  by_cases same : pair.1 = k <;> simp [valuesOf,same]

theorem valuesOf_singleton (k l : K) (v : V) : valuesOf k [(l,v)] = if l = k then [v] else [] :=
  valuesOf_cons k (l,v) []

theorem mem_valuesOf {k : K} {v : V} {pairs : List (K × V)} : v ∈ valuesOf k pairs ↔ (k,v) ∈ pairs := by
  simp only [valuesOf,List.mem_map,List.mem_filter,decide_eq_true_eq]
  constructor
  · rintro ⟨pair,⟨member,rfl⟩,rfl⟩
    exact member
  · exact fun member => ⟨_,⟨member,rfl⟩,rfl⟩

theorem valuesOf_perm (k : K) {first second : List (K × V)} (perm : first.Perm second) :
    (valuesOf k first).Perm (valuesOf k second) :=
  (perm.filter _).map _

theorem valuesOf_eq_nil {k : K} {pairs : List (K × V)} (absent : k ∉ pairs.map Prod.fst) :
    valuesOf k pairs = [] := by
  rw [valuesOf,List.map_eq_nil_iff,List.filter_eq_nil_iff]
  intro pair member same
  exact absent (List.mem_map.mpr ⟨pair,member,by simpa using same⟩)

theorem valuesOf_of_nodup {pairs : List (K × V)} (distinct : (pairs.map Prod.fst).Nodup)
    {k : K} {v : V} (member : (k,v) ∈ pairs) : valuesOf k pairs = [v] := by
  induction pairs with
  | nil => contradiction
  | cons pair rest ih =>
    rw [List.map_cons,List.nodup_cons] at distinct
    rw [valuesOf_cons]
    rcases List.mem_cons.mp member with rfl | later
    · rw [if_pos rfl,valuesOf_eq_nil distinct.1]
    · have other : pair.1 ≠ k := by
        rintro rfl
        exact distinct.1 (List.mem_map.mpr ⟨(pair.1,v),later,rfl⟩)
      rw [if_neg other]
      exact ih distinct.2 later

theorem valuesOf_length_le_one {pairs : List (K × V)} (distinct : (pairs.map Prod.fst).Nodup) (k : K) :
    (valuesOf k pairs).length ≤ 1 := by
  by_cases present : k ∈ pairs.map Prod.fst
  · obtain ⟨⟨_,v⟩,member,rfl⟩ := List.mem_map.mp present
    rw [valuesOf_of_nodup distinct member]
    exact Nat.le_refl 1
  · rw [valuesOf_eq_nil present]
    exact Nat.zero_le 1

theorem valuesOf_filter (k : K) (pairs : List (K × V)) (keep : K → Bool) :
    valuesOf k (pairs.filter fun pair => keep pair.1) = if keep k then valuesOf k pairs else [] := by
  induction pairs with
  | nil => simp
  | cons pair rest ih =>
    rw [List.filter_cons,valuesOf_cons]
    by_cases same : pair.1 = k
    · subst same
      cases kept : keep pair.1 <;> simp [kept,valuesOf_cons,ih]
    · cases kept : keep pair.1 <;> simp [same,valuesOf_cons,ih]

theorem flatMap_single {keys : List K} (distinct : keys.Nodup) {k : K} (member : k ∈ keys) (v : V) :
    keys.flatMap (fun l => if k = l then [v] else []) = [v] := by
  induction keys with
  | nil => contradiction
  | cons l rest ih =>
    rw [List.nodup_cons] at distinct
    rw [List.flatMap_cons]
    by_cases same : k = l
    · have others : rest.flatMap (fun l => if k = l then [v] else []) = [] := by
        rw [List.flatMap_eq_nil_iff]
        intro m inside
        rw [if_neg]
        rintro rfl
        exact distinct.1 (same ▸ inside)
      rw [if_pos same,others,List.append_nil]
    · rw [if_neg same,ih distinct.2 ((List.mem_cons.mp member).resolve_left same),List.nil_append]

theorem perm_flatMap_valuesOf {keys : List K} (distinct : keys.Nodup) (pairs : List (K × V))
    (known : ∀ pair ∈ pairs, pair.1 ∈ keys) :
    (pairs.map Prod.snd).Perm (keys.flatMap fun k => valuesOf k pairs) := by
  induction pairs with
  | nil => simp
  | cons pair rest ih =>
    have split (k : K) : valuesOf k (pair :: rest) =
        (if pair.1 = k then [pair.2] else []) ++ valuesOf k rest := by
      rw [valuesOf_cons]
      split <;> rfl
    simp only [split,List.map_cons]
    refine List.Perm.trans ?_ (List.flatMap_append_perm keys _ _)
    rw [flatMap_single distinct (known pair List.mem_cons_self),List.singleton_append]
    exact (ih fun p member => known p (List.mem_cons_of_mem _ member)).cons _

end

section
variable {V : Type}

def reduceAll (op : V → V → V) : List V → Option V
  | [] => none
  | v :: rest => some (rest.foldl op v)

theorem reduceAll_concat (op : V → V → V) (values : List V) (v : V) :
    reduceAll op (values ++ [v]) = some ((reduceAll op values).elim v (fun old => op old v)) := by
  cases values <;> simp [reduceAll]

/-- The order of the values does not matter to an associative and commutative operator. -/
theorem reduceAll_perm {op : V → V → V} (assoc : ∀ a b c, op (op a b) c = op a (op b c))
    (comm : ∀ a b, op a b = op b a) {first second : List V} (perm : first.Perm second) :
    reduceAll op first = reduceAll op second := by
  have right : RightCommutative op := ⟨fun a b c => by rw [assoc,comm b c,← assoc]⟩
  induction perm with
  | nil => rfl
  | cons v tail _ => simp only [reduceAll,tail.foldl_eq]
  | swap v w rest => simp only [reduceAll,List.foldl_cons,comm]
  | trans _ _ left_ih right_ih => exact left_ih.trans right_ih

end
theorem mergeSort_of_increasing {α : Type} (key : α → ℕ) {all items : List α} (perm : all.Perm items)
    (increasing : (items.map key).Pairwise (· < ·)) :
    all.mergeSort (fun x y => decide (key x ≤ key y)) = items := by
  have distinct : (items.map key).Nodup := increasing.imp Nat.ne_of_lt
  rw [List.pairwise_map] at increasing
  have sorted : (all.mergeSort fun x y => decide (key x ≤ key y)).Pairwise fun x y => key x ≤ key y := by
    refine (List.pairwise_mergeSort ?_ ?_ all).imp fun le => by simpa using le
    · exact fun a b c first second => by simp only [decide_eq_true_eq] at *; omega
    · exact fun a b => by simp only [Bool.or_eq_true,decide_eq_true_eq]; omega
  have kept := List.mergeSort_perm all fun x y => decide (key x ≤ key y)
  refine List.Perm.eq_of_pairwise ?_ sorted (increasing.imp Nat.le_of_lt) (kept.trans perm)
  intro x y inside inside' below above
  exact List.inj_on_of_nodup_map distinct (perm.subset (kept.subset inside)) inside' (Nat.le_antisymm below above)

end Library
