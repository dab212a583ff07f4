import Mathlib.Data.List.Basic

/-! Lists cut into parts of one length, of which only the last may be shorter: what a list
and a length determine. -/
namespace Library

universe u

variable {α : Type u}

structure Chunks (n : ℕ) (all : List α) (parts : List (List α)) : Prop where
  whole : parts.flatten = all
  nonempty : ∀ part ∈ parts, part ≠ []
  bounded : ∀ part ∈ parts, part.length ≤ n
  full : ∀ part ∈ parts.dropLast, part.length = n

namespace Chunks
variable {n : ℕ} {all : List α} {parts others : List (List α)}

theorem nil (n : ℕ) : Chunks n ([] : List α) [] := ⟨rfl,by simp,by simp,by simp⟩

theorem close {part : List α} (filled : ∀ part ∈ parts, part.length = n) (present : part ≠ [])
    (fits : part.length ≤ n) (split : parts.flatten ++ part = all) : Chunks n all (parts ++ [part]) := by
  have positive : 0 < n := Nat.lt_of_lt_of_le (List.length_pos_iff.mpr present) fits
  constructor
  · simpa using split
  · intro other member
    rcases List.mem_append.mp member with before | last
    · have size := filled other before
      exact List.length_pos_iff.mp (by omega)
    · rw [List.mem_singleton.mp last]
      exact present
  · intro other member
    rcases List.mem_append.mp member with before | last
    · exact Nat.le_of_eq (filled other before)
    · rw [List.mem_singleton.mp last]
      exact fits
  · simpa using filled

theorem tail {part : List α} (cut : Chunks n all (part :: parts)) : Chunks n parts.flatten parts := by
  refine ⟨rfl,fun other member => cut.nonempty other (by simp [member]),
    fun other member => cut.bounded other (by simp [member]),?_⟩
  intro other member
  apply cut.full other
  cases parts with
  | nil => simp at member
  | cons next rest => simpa using .inr member

theorem head_full {part next : List α} (cut : Chunks n all (part :: next :: parts)) : part.length = n :=
  cut.full part (by simp)

theorem empty (cut : Chunks n ([] : List α) parts) : parts = [] := by
  cases parts with
  | nil => rfl
  | cons part rest =>
    have whole := cut.whole
    simp only [List.flatten_cons,List.append_eq_nil_iff] at whole
    exact absurd whole.1 (cut.nonempty part (by simp))

theorem head_length {part other : List α} {rest more : List (List α)}
    (left : Chunks n all (part :: rest)) (right : Chunks n all (other :: more)) :
    part.length = other.length := by
  have sizes := congrArg List.length (left.whole.trans right.whole.symm)
  simp only [List.flatten_cons,List.length_append] at sizes
  have inside := left.bounded part (by simp)
  have within := right.bounded other (by simp)
  cases rest with
  | nil =>
    cases more with
    | nil => simpa using sizes
    | cons next more =>
      have filled := right.head_full
      simp only [List.flatten_nil,List.length_nil] at sizes
      omega
  | cons next rest =>
    have filled := left.head_full
    cases more with
    | nil =>
      simp only [List.flatten_nil,List.length_nil] at sizes
      omega
    | cons next more => exact filled.trans right.head_full.symm

theorem unique (left : Chunks n all parts) (right : Chunks n all others) : parts = others := by
  induction parts generalizing all others with
  | nil =>
    have nothing : all = [] := left.whole.symm
    subst nothing
    exact right.empty.symm
  | cons part rest ih =>
    cases others with
    | nil =>
      have nothing : all = [] := right.whole.symm
      subst nothing
      exact left.empty
    | cons other more =>
      have same := left.whole.trans right.whole.symm
      simp only [List.flatten_cons] at same
      obtain ⟨heads,tails⟩ := List.append_inj same (left.head_length right)
      rw [heads,ih left.tail (tails ▸ right.tail)]

theorem cons {part : List α} (present : part ≠ []) (filled : part.length = n) (cut : Chunks n all parts) :
    Chunks n (part ++ all) (part :: parts) := by
  constructor
  · rw [List.flatten_cons,cut.whole]
  · intro other member
    rcases List.mem_cons.mp member with rfl | later
    · exact present
    · exact cut.nonempty other later
  · intro other member
    rcases List.mem_cons.mp member with rfl | later
    · exact Nat.le_of_eq filled
    · exact cut.bounded other later
  · intro other member
    cases parts with
    | nil => simp at member
    | cons next rest =>
      rw [List.dropLast_cons_of_ne_nil (by simp)] at member
      rcases List.mem_cons.mp member with rfl | later
      · exact filled
      · exact cut.full other later

end Chunks

def marked : List (List α) → List (List α × Bool)
  | [] => []
  | [last] => [(last,true)]
  | part :: next :: rest => (part,false) :: marked (next :: rest)

@[simp] theorem marked_fst (parts : List (List α)) : (marked parts).map Prod.fst = parts := by
  fun_induction marked parts with
  | case1 => rfl
  | case2 last => rfl
  | case3 part next rest ih => rw [List.map_cons,ih]

theorem marked_close (parts : List (List α)) (last : List α) :
    marked (parts ++ [last]) = parts.map (fun part => (part,false)) ++ [(last,true)] := by
  induction parts with
  | nil => rfl
  | cons part rest ih =>
    cases rest with
    | nil => rfl
    | cons next rest =>
      rw [List.cons_append,List.cons_append,marked,← List.cons_append,ih]
      rfl

theorem marked_cons {parts : List (List α)} (part : List α) (more : parts ≠ []) :
    marked (part :: parts) = (part,false) :: marked parts := by
  cases parts with
  | nil => exact absurd rfl more
  | cons next rest => rfl

end Library
