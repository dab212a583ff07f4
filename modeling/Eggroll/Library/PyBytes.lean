import Mathlib.Data.List.Basic
import Mathlib.Tactic.Ring

/-! Byte strings as the Python runtime handles them: slices with negative bounds,
slice assignment into a bytearray, and the big-endian `">i"` format of `struct`.
A statement sequence under `try` keeps what it did before it raised. -/
namespace Library

abbrev Bytes := List UInt8

namespace PyBytes

/-- Python's adjustment of one slice bound against a length. -/
def bound (length : Nat) (i : Int) : Nat :=
  if i < 0 then (i + length).toNat else min i.toNat length

def slice (data : Bytes) (i j : Int) : Bytes :=
  (data.drop (bound data.length i)).take (bound data.length j - bound data.length i)

/-- `data[i:j] = value` on a bytearray. -/
def setSlice (data : Bytes) (i j : Int) (value : Bytes) : Bytes :=
  data.take (bound data.length i) ++ value ++
    data.drop (max (bound data.length i) (bound data.length j))

def inInt32 (value : Int) : Bool := -2147483648 ≤ value && value < 2147483648

def packInt (value : Int) : Bytes :=
  let n := (value % 4294967296).toNat
  [UInt8.ofNat (n / 16777216),UInt8.ofNat (n / 65536),UInt8.ofNat (n / 256),UInt8.ofNat n]

def unpackInt : Bytes → Int
  | a :: b :: c :: d :: _ =>
    let n := a.toNat * 16777216 + b.toNat * 65536 + c.toNat * 256 + d.toNat
    if n < 2147483648 then n else (n : Int) - 4294967296
  | _ => 0

/-- `struct.unpack_from(">i", data, offset)[0]`; a negative offset counts from the
end of the buffer, and `none` is `struct.error`. -/
def unpackFrom (data : Bytes) (offset : Int) : Option Int :=
  let at_ := if offset < 0 then offset + data.length else offset
  if (offset < 0 ∧ 0 < offset + 4) ∨ at_ < 0 ∨ data.length - at_ < 4 then none
  else some (unpackInt (data.drop at_.toNat))

/-- `n.to_bytes(4, "big")`; `none` is OverflowError. -/
def toBytes4 (n : Nat) : Option Bytes := if n < 4294967296 then some (packInt n) else none

/-- `int.from_bytes(data, "big")`. -/
def fromBytes (data : Bytes) : Nat := data.foldl (fun n byte => n * 256 + byte.toNat) 0

@[simp] theorem packInt_length (value : Int) : (packInt value).length = 4 := rfl

theorem unpackInt_packInt (n : Nat) (small : n < 2147483648) (rest : Bytes) :
    unpackInt (packInt n ++ rest) = n := by
  have wrapped : ((n : Int) % 4294967296).toNat = n := by omega
  have joined : n / 16777216 % 256 * 16777216 + n / 65536 % 256 * 65536 + n / 256 % 256 * 256 +
      n % 256 = n := by omega
  simp only [packInt,wrapped,List.cons_append,List.nil_append,unpackInt,UInt8.toNat_ofNat',
    Nat.reducePow,joined,if_pos small]

theorem fromBytes_packInt (n : Nat) (small : n < 4294967296) : fromBytes (packInt n) = n := by
  have wrapped : ((n : Int) % 4294967296).toNat = n := by omega
  simp only [fromBytes,packInt,wrapped,List.foldl_cons,List.foldl_nil,UInt8.toNat_ofNat',Nat.reducePow]
  omega

theorem bound_of_le {length n : Nat} (inside : n ≤ length) : bound length (n : Int) = n := by
  simp [bound,inside]

theorem slice_of_le (data : Bytes) {i j : Nat} (order : i ≤ j) (inside : j ≤ data.length) :
    slice data i j = (data.drop i).take (j - i) := by
  rw [slice,bound_of_le (by omega : i ≤ data.length),bound_of_le inside]

theorem slice_natCast (data : Bytes) {i : Nat} (j : Nat) (inside : i ≤ data.length) :
    slice data i j = (data.drop i).take (j - i) := by
  have stop : bound data.length j = min j data.length := by simp [bound]
  rw [slice,bound_of_le inside,stop,List.take_eq_take_iff,List.length_drop]
  omega

theorem setSlice_of_le (data value : Bytes) {i j : Nat} (order : i ≤ j) (inside : j ≤ data.length) :
    setSlice data i j value = data.take i ++ value ++ data.drop j := by
  rw [setSlice,bound_of_le (by omega : i ≤ data.length),bound_of_le inside,Nat.max_eq_right order]

theorem setSlice_length (data value : Bytes) {i j : Nat} (order : i ≤ j) (inside : j ≤ data.length)
    (size : value.length = j - i) : (setSlice data i j value).length = data.length := by
  rw [setSlice_of_le data value order inside]
  simp only [List.length_append,List.length_take,List.length_drop,size]
  omega

theorem setSlice_take (data value : Bytes) {i j : Nat} (order : i ≤ j) (inside : j ≤ data.length)
    (size : value.length = j - i) : (setSlice data i j value).take j = data.take i ++ value := by
  rw [setSlice_of_le data value order inside,List.take_append_of_le_length,List.take_of_length_le]
  all_goals
    simp only [List.length_append,List.length_take,size]
    omega

theorem setSlice_take_before (data value : Bytes) {i j k : Nat} (order : i ≤ j)
    (inside : j ≤ data.length) (before : k ≤ i) :
    (setSlice data i j value).take k = data.take k := by
  rw [setSlice_of_le data value order inside,List.append_assoc,List.take_append_of_le_length,
    List.take_take,Nat.min_eq_left before]
  simp only [List.length_take]
  omega

theorem inInt32_natCast {n : Nat} (small : n < 2147483648) : inInt32 (n : Int) = true := by
  simp only [inInt32,Bool.and_eq_true,decide_eq_true_eq]
  omega

theorem lt_of_inInt32 {n : Nat} (range : inInt32 (n : Int) = true) : n < 2147483648 := by
  simp only [inInt32,Bool.and_eq_true,decide_eq_true_eq] at range
  omega

theorem inInt32_large {n : Nat} (large : 2147483648 ≤ n) : inInt32 (n : Int) = false := by
  rw [Bool.eq_false_iff]
  intro range
  have := lt_of_inInt32 range
  omega

theorem unpackFrom_of_drop (data rest : Bytes) {offset n : Nat}
    (shape : data.drop offset = packInt n ++ rest) (small : n < 2147483648) :
    unpackFrom data offset = some (n : Int) := by
  have size := congrArg List.length shape
  simp only [List.length_drop,List.length_append,packInt_length] at size
  have inside : ¬ (((offset : Int) < 0 ∧ 0 < (offset : Int) + 4) ∨ (offset : Int) < 0 ∨
      (data.length : Int) - offset < 4) := by omega
  have forward : ¬ (offset : Int) < 0 := by omega
  simp only [unpackFrom,if_neg forward,if_neg inside,Int.toNat_natCast,shape,
    unpackInt_packInt n small]

end PyBytes

/-! Stateful code that may raise keeps, at the raise, what it has done so far. -/
section Raising
variable {σ ε α β : Type}

/-- The state in which a computation returned or raised. -/
def after : EStateM.Result ε σ α → σ
  | .ok _ t => t
  | .error _ t => t

@[simp] theorem after_ok (a : α) (t : σ) : after (EStateM.Result.ok a t : EStateM.Result ε σ α) = t := rfl

@[simp] theorem after_error (e : ε) (t : σ) :
    after (EStateM.Result.error e t : EStateM.Result ε σ α) = t := rfl

/-- Whatever `x` does, by returning or by raising, it leaves `P` true. -/
def Keeps (P : σ → Prop) (x : EStateM ε σ α) : Prop := ∀ s, P s → P (after (x s))

/-- The only errors `x` raises satisfy `E`. -/
def RaisesOnly (E : ε → Prop) (x : EStateM ε σ α) : Prop :=
  ∀ s e t, x s = .error e t → E e

theorem bind_ok {x : EStateM ε σ α} {f : α → EStateM ε σ β} {s t : σ} {a : α}
    (done : x s = .ok a t) : (x >>= f) s = f a t := by
  simp [bind,EStateM.bind,done]

theorem bind_error {x : EStateM ε σ α} {f : α → EStateM ε σ β} {s t : σ} {e : ε}
    (raised : x s = .error e t) : (x >>= f) s = .error e t := by
  simp [bind,EStateM.bind,raised]

theorem get_bind (f : σ → EStateM ε σ β) (s : σ) : ((get : EStateM ε σ σ) >>= f) s = f s s := rfl

theorem bind_eq_ok {x : EStateM ε σ α} {f : α → EStateM ε σ β} {s u : σ} {b : β}
    (done : (x >>= f) s = .ok b u) : ∃ a t, x s = .ok a t ∧ f a t = .ok b u := by
  cases run : x s with
  | ok a t => exact ⟨a,t,rfl,(bind_ok run).symm.trans done⟩
  | error e t =>
    rw [bind_error run] at done
    contradiction

theorem Keeps.bind {P : σ → Prop} {x : EStateM ε σ α} {f : α → EStateM ε σ β}
    (first : Keeps P x) (rest : ∀ a, Keeps P (f a)) : Keeps P (x >>= f) := by
  intro s holds
  have before := first s holds
  cases run : x s with
  | ok a t =>
    rw [run,after_ok] at before
    rw [bind_ok run]
    exact rest a t before
  | error e t =>
    rw [run,after_error] at before
    rw [bind_error run]
    exact before

theorem RaisesOnly.bind {E : ε → Prop} {x : EStateM ε σ α} {f : α → EStateM ε σ β}
    (first : RaisesOnly E x) (rest : ∀ a, RaisesOnly E (f a)) : RaisesOnly E (x >>= f) := by
  intro s e u raised
  cases run : x s with
  | ok a t =>
    rw [bind_ok run] at raised
    exact rest a t e u raised
  | error e' t =>
    rw [bind_error run] at raised
    cases raised
    exact first s e u run

/-- The operation on one input after another, by a caller that catches what it raises. -/
def calls (op : α → EStateM ε σ β) : List α → σ → List (Except ε β) × σ
  | [], s => ([],s)
  | a :: rest, s =>
    match op a s with
    | .ok b t => (.ok b :: (calls op rest t).1,(calls op rest t).2)
    | .error e t => (.error e :: (calls op rest t).1,(calls op rest t).2)

theorem calls_append (op : α → EStateM ε σ β) (first second : List α) (s : σ) :
    calls op (first ++ second) s =
      ((calls op first s).1 ++ (calls op second (calls op first s).2).1,(calls op second (calls op first s).2).2) := by
  induction first generalizing s with
  | nil => rfl
  | cons a rest ih =>
    rw [List.cons_append]
    cases run : op a s with
    | ok b t => simp only [calls,run,ih,List.cons_append]
    | error e t => simp only [calls,run,ih,List.cons_append]

/-! Two computations on states that correspond. -/
section Simulating
variable {τ : Type}

def Alike (related : σ → τ → Prop) : EStateM.Result ε σ α → EStateM.Result ε τ α → Prop
  | .ok a s, .ok b t => a = b ∧ related s t
  | .error e s, .error e' t => e = e' ∧ related s t
  | _, _ => False

def Simulates (related : σ → τ → Prop) (x : EStateM ε σ α) (y : EStateM ε τ α) : Prop :=
  ∀ s t, related s t → Alike related (x s) (y t)

theorem Simulates.pure {related : σ → τ → Prop} (a : α) :
    Simulates related (Pure.pure a : EStateM ε σ α) (Pure.pure a : EStateM ε τ α) :=
  fun _ _ rel => ⟨rfl,rel⟩

theorem Alike.split {related : σ → τ → Prop} {x : EStateM.Result ε σ α} {y : EStateM.Result ε τ α}
    (alike : Alike related x y) :
    (∃ a s t, x = .ok a s ∧ y = .ok a t ∧ related s t) ∨ ∃ e s t, x = .error e s ∧ y = .error e t ∧ related s t := by
  cases x with
  | ok a s =>
    cases y with
    | ok b t => exact .inl ⟨a,s,t,rfl,by rw [alike.1],alike.2⟩
    | error e t => exact alike.elim
  | error e s =>
    cases y with
    | ok b t => exact alike.elim
    | error e' t => exact .inr ⟨e,s,t,rfl,by rw [alike.1],alike.2⟩

theorem Simulates.bind {related : σ → τ → Prop} {x : EStateM ε σ α} {y : EStateM ε τ α}
    {f : α → EStateM ε σ β} {g : α → EStateM ε τ β} (first : Simulates related x y)
    (rest : ∀ a, Simulates related (f a) (g a)) : Simulates related (x >>= f) (y >>= g) := by
  intro s t rel
  obtain ⟨a,s',t',left,right,rel'⟩ | ⟨e,s',t',left,right,rel'⟩ := (first s t rel).split
  · rw [bind_ok left,bind_ok right]
    exact rest a s' t' rel'
  · rw [bind_error left,bind_error right]
    exact ⟨rfl,rel'⟩

theorem Simulates.calls {related : σ → τ → Prop} {op : α → EStateM ε σ β} {op' : α → EStateM ε τ β}
    (each : ∀ a, Simulates related (op a) (op' a)) (inputs : List α) {s : σ} {t : τ} (rel : related s t) :
    (calls op inputs s).1 = (calls op' inputs t).1 ∧ related (calls op inputs s).2 (calls op' inputs t).2 := by
  induction inputs generalizing s t with
  | nil => exact ⟨rfl,rel⟩
  | cons a rest ih =>
    obtain ⟨b,s',t',left,right,rel'⟩ | ⟨e,s',t',left,right,rel'⟩ := (each a s t rel).split
    · obtain ⟨same,ends⟩ := ih rel'
      simp only [Library.calls,left,right,same,true_and]
      exact ends
    · obtain ⟨same,ends⟩ := ih rel'
      simp only [Library.calls,left,right,same,true_and]
      exact ends

end Simulating
end Raising
end Library
