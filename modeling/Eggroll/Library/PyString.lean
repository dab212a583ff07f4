import Mathlib.Algebra.Ring.Nat
import Mathlib.Data.List.Basic

/-! Strings as lists of characters: Python's `rfind` and the slice up to it, numbers in
decimals and in a fixed number of digits, the number that a text stands for, and what can be
read back from a joined string. -/
namespace Library

abbrev Str := List Char

def rfind (sub : Str) : Str → Option ℕ
  | [] => if sub = [] then some 0 else none
  | c :: rest =>
    match rfind sub rest with
    | some i => some (i + 1)
    | none => if sub.isPrefixOf (c :: rest) then some 0 else none

/-- `s[: s.rfind(sub)]`, where `rfind` gives -1 for a `sub` that does not occur. -/
def beforeLast (sub s : Str) : Str :=
  match rfind sub s with
  | some i => s.take i
  | none => s.dropLast

theorem append_delim_inj {α : Type} {delim : α} {first second : List α} {tail tail' : List α}
    (free : delim ∉ tail) (free' : delim ∉ tail')
    (same : first ++ delim :: tail = second ++ delim :: tail') : first = second := by
  induction first generalizing second with
  | nil =>
    cases second with
    | nil => rfl
    | cons x rest =>
      obtain ⟨_,rfl⟩ := List.cons.inj same
      simp at free
  | cons x rest ih =>
    cases second with
    | nil =>
      obtain ⟨_,rfl⟩ := List.cons.inj same
      simp at free'
    | cons y other =>
      obtain ⟨rfl,later⟩ := List.cons.inj same
      rw [ih later]

/-- `str` of a natural number. -/
def decimals (n : ℕ) : Str := (toString n).toList

/-- The last `width` digits of a number, with zeros in front. -/
def padded : ℕ → ℕ → Str
  | 0, _ => []
  | width + 1, n => padded width (n / 10) ++ [Nat.digitChar (n % 10)]

theorem decimals_inj {n m : ℕ} (same : decimals n = decimals m) : n = m := by
  rw [decimals,decimals,Nat.toString_eq_repr,Nat.toString_eq_repr,Nat.toList_repr,Nat.toList_repr] at same
  have back := congrArg (fun digits => Nat.ofDigitChars 10 digits 0) same
  rwa [Nat.ofDigitChars_toDigits (by decide) (by decide),Nat.ofDigitChars_toDigits (by decide) (by decide)] at back

theorem digit_of_mem_decimals {n : ℕ} {c : Char} (member : c ∈ decimals n) : c.isDigit = true := by
  rw [decimals,Nat.toString_eq_repr,Nat.toList_repr] at member
  exact Nat.isDigit_of_mem_toDigits (by decide) (by decide) member

def parseDigits (digits : Str) : Option ℕ :=
  if digits = [] ∨ ¬ digits.all Char.isDigit then none else some (Nat.ofDigitChars 10 digits 0)

def parseSigned : Str → Option Int
  | '-' :: digits => (parseDigits digits).map fun n => -(n : Int)
  | '+' :: digits => (parseDigits digits).map Int.ofNat
  | digits => (parseDigits digits).map Int.ofNat

theorem parseDigits_decimals (n : ℕ) : parseDigits (decimals n) = some n := by
  have all : (decimals n).all Char.isDigit = true :=
    List.all_eq_true.mpr fun c member => digit_of_mem_decimals member
  have some_digit : decimals n ≠ [] := by
    rw [decimals,Nat.toString_eq_repr,Nat.toList_repr]
    exact Nat.toDigits_ne_nil
  rw [parseDigits,if_neg (by simp [some_digit,all]),decimals,Nat.toString_eq_repr,Nat.toList_repr,
    Nat.ofDigitChars_toDigits (by decide) (by decide)]

theorem parseSigned_decimals (n : ℕ) : parseSigned (decimals n) = some (n : Int) := by
  have unsigned {c : Char} {rest : Str} (here : decimals n = c :: rest) : c.isDigit = true :=
    digit_of_mem_decimals (n := n) (by rw [here]; exact List.mem_cons_self)
  unfold parseSigned
  split
  · rename_i digits sign
    exact absurd (unsigned sign) (by decide)
  · rename_i digits sign
    exact absurd (unsigned sign) (by decide)
  · rw [parseDigits_decimals]
    rfl

theorem length_padded (width n : ℕ) : (padded width n).length = width := by
  induction width generalizing n with
  | zero => rfl
  | succ width ih => rw [padded,List.length_append,ih,List.length_singleton]

theorem digit_of_mem_padded {width n : ℕ} {c : Char} (member : c ∈ padded width n) : c.isDigit = true := by
  induction width generalizing n with
  | zero => exact absurd member List.not_mem_nil
  | succ width ih =>
    obtain before | last := List.mem_append.mp member
    · exact ih before
    · rw [List.mem_singleton.mp last,Nat.isDigit_digitChar]
      exact decide_eq_true (Nat.mod_lt n (by decide))

theorem digitChar_inj {n m : ℕ} (left : n < 10) (right : m < 10) (same : Nat.digitChar n = Nat.digitChar m) : n = m := by
  have distinct : ∀ n : Fin 10, ∀ m : Fin 10, Nat.digitChar n = Nat.digitChar m → n = m := by decide
  exact Fin.val_eq_of_eq (distinct ⟨n,left⟩ ⟨m,right⟩ same)

theorem padded_inj {width n m : ℕ} (left : n < 10 ^ width) (right : m < 10 ^ width)
    (same : padded width n = padded width m) : n = m := by
  induction width generalizing n m with
  | zero => omega
  | succ width ih =>
    obtain ⟨before,last⟩ := List.append_inj same (by rw [length_padded,length_padded])
    have tens : n / 10 = m / 10 := ih (by omega) (by omega) before
    have ones := digitChar_inj (Nat.mod_lt n (by decide)) (Nat.mod_lt m (by decide)) (List.cons.inj last).1
    omega

theorem parseDigits_padded {width n : ℕ} (some_digit : 0 < width) (fits : n < 10 ^ width) :
    parseDigits (padded width n) = some n := by
  have value (width n : ℕ) : Nat.ofDigitChars 10 (padded width n) 0 = n % 10 ^ width := by
    induction width generalizing n with
    | zero => simp [padded,Nat.ofDigitChars,Nat.mod_one]
    | succ width ih =>
      rw [padded,Nat.ofDigitChars_append,ih,Nat.ofDigitChars_cons_digitChar_of_lt_ten (Nat.mod_lt n (by decide)),
        Nat.ofDigitChars_nil,Nat.pow_succ',Nat.mod_mul]
      omega
  have some_char : padded width n ≠ [] := by
    rw [← List.length_pos_iff,length_padded]
    exact some_digit
  have all : (padded width n).all Char.isDigit = true := List.all_eq_true.mpr fun c member => digit_of_mem_padded member
  rw [parseDigits,if_neg (by simp [some_char,all]),value,Nat.mod_eq_of_lt fits]

theorem padded_append_inj {width n m : ℕ} {rest rest' : Str} (left : n < 10 ^ width) (right : m < 10 ^ width)
    (same : padded width n ++ rest = padded width m ++ rest') : n = m ∧ rest = rest' := by
  obtain ⟨digits,tails⟩ := List.append_inj same (by rw [length_padded,length_padded])
  exact ⟨padded_inj left right digits,tails⟩

end Library
