import Mathlib.Data.List.Basic
import Mathlib.Data.List.Perm.Basic

/-! Folding without a start value, where there is nothing to give for an empty list. For an
associative and commutative operation the parts of a list may be folded first. -/
namespace Library
variable {α : Type} (op : α → α → α)

/-- `functools.reduce(op, values)`, or nothing where that raises. -/
def reduce : List α → Option α
  | [] => none
  | value :: rest => some (rest.foldl op value)

theorem reduce_eq_none {values : List α} : reduce op values = none ↔ values = [] := by
  cases values <;> simp [reduce]

theorem foldl_merge (value : α) (values : List α) :
    values.foldl (fun acc v => Option.merge op acc (some v)) (some value) = some (values.foldl op value) := by
  induction values generalizing value with
  | nil => rfl
  | cons v rest ih => exact ih (op value v)

theorem reduce_eq_foldl (values : List α) :
    reduce op values = values.foldl (fun acc v => Option.merge op acc (some v)) none := by
  cases values with
  | nil => rfl
  | cons value rest =>
    rw [List.foldl_cons,Option.merge_none_left,foldl_merge]
    rfl

variable [Std.Associative op]

theorem merge_assoc (a b c : Option α) :
    Option.merge op (Option.merge op a b) c = Option.merge op a (Option.merge op b c) :=
  Std.Associative.assoc a b c

theorem foldl_merge_start (start : Option α) (values : List α) :
    values.foldl (fun acc v => Option.merge op acc (some v)) start = Option.merge op start (reduce op values) := by
  rw [reduce_eq_foldl]
  induction values generalizing start with
  | nil => rw [List.foldl_nil,List.foldl_nil,Option.merge_none_right]
  | cons v rest ih =>
    rw [List.foldl_cons,List.foldl_cons,ih,ih (Option.merge op none (some v)),Option.merge_none_left,
      merge_assoc]

theorem reduce_append (first second : List α) :
    reduce op (first ++ second) = Option.merge op (reduce op first) (reduce op second) := by
  rw [reduce_eq_foldl,List.foldl_append,foldl_merge_start,← reduce_eq_foldl]

theorem reduce_cons (value : α) (rest : List α) :
    reduce op (value :: rest) = Option.merge op (some value) (reduce op rest) :=
  reduce_append op [value] rest

theorem reduce_flatMap {β : Type} (parts : List β) (values : β → List α) :
    reduce op (parts.flatMap values) = reduce op (parts.filterMap fun part => reduce op (values part)) := by
  induction parts with
  | nil => rfl
  | cons part rest ih =>
    rw [List.flatMap_cons,reduce_append,ih,List.filterMap_cons]
    cases first : reduce op (values part) with
    | none => rw [Option.merge_none_left]
    | some value => rw [reduce_cons]

variable [Std.Commutative op]

omit [Std.Associative op] in
theorem merge_comm (a b : Option α) : Option.merge op a b = Option.merge op b a := Std.Commutative.comm a b

theorem reduce_perm {first second : List α} (perm : first.Perm second) : reduce op first = reduce op second := by
  induction perm with
  | nil => rfl
  | cons value _ ih => rw [reduce_cons,reduce_cons,ih]
  | swap a b rest =>
    rw [reduce_cons,reduce_cons,reduce_cons,reduce_cons,← merge_assoc,← merge_assoc,merge_comm op (some b)]
  | trans _ _ first second => exact first.trans second

theorem reduce_partition {β : Type} (parts : List β) (values : β → List α) (condition : β → Bool) :
    reduce op (parts.flatMap values) = Option.merge op (reduce op ((parts.filter condition).flatMap values))
      (reduce op ((parts.filter fun part => !condition part).flatMap values)) := by
  rw [← reduce_append,← List.flatMap_append]
  exact reduce_perm op ((List.filter_append_perm condition parts).symm.flatMap_right values)

end Library
