import Std.Data.ExtTreeMap
import Mathlib.Data.List.Basic

/-! Maps as lists that increase in their keys: one pass over two of them that combines the
values under each key, and loops that yield such lists turn by turn. -/
namespace Library

section
variable {K A B C : Type}

def emit (k : K) (value : Option C) : List (K × C) := (value.map fun v => (k,v)).toList

theorem mem_emit {k : K} {value : Option C} {p : K × C} (member : p ∈ emit k value) : p.1 = k := by
  cases value with
  | none => simp [emit] at member
  | some v => simp_all [emit]

theorem lookup_head [BEq K] (k : K) (v : A) (rest : List (K × A)) (x : K) :
    ((k,v) :: rest).lookup x = if x == k then some v else rest.lookup x := by
  rw [List.lookup_cons]
  cases x == k <;> rfl

variable [Ord K]

def Increasing (pairs : List (K × A)) : Prop := pairs.Pairwise fun p q => compare p.1 q.1 = .lt

def mergeWith (combine : Option A → Option B → Option C) : List (K × A) → List (K × B) → List (K × C)
  | [], [] => []
  | [], (k,b) :: rest => emit k (combine none (some b)) ++ mergeWith combine [] rest
  | (k,a) :: rest, [] => emit k (combine (some a) none) ++ mergeWith combine rest []
  | (k,a) :: rest, (k',b) :: rest' =>
    match compare k k' with
    | .eq => emit k (combine (some a) (some b)) ++ mergeWith combine rest rest'
    | .lt => emit k (combine (some a) none) ++ mergeWith combine rest ((k',b) :: rest')
    | .gt => emit k' (combine none (some b)) ++ mergeWith combine ((k,a) :: rest) rest'
termination_by first second => first.length + second.length

def Below (k : K) (pairs : List (K × A)) : Prop := ∀ p ∈ pairs, compare k p.1 = .lt

theorem Below.nil (k : K) : Below k ([] : List (K × A)) := fun _ member => absurd member List.not_mem_nil

theorem increasing_cons {p : K × A} {rest : List (K × A)} :
    Increasing (p :: rest) ↔ Below p.1 rest ∧ Increasing rest := List.pairwise_cons

theorem Below.emit_append {k l : K} (above : compare k l = .lt) (value : Option C) {out : List (K × C)}
    (below : Below k out) : Below k (emit l value ++ out) := by
  intro p member
  rcases List.mem_append.mp member with emitted | later
  · rw [mem_emit emitted,above]
  · exact below p later

theorem increasing_emit {k : K} {value : Option C} {out : List (K × C)} (below : Below k out)
    (increasing : Increasing out) : Increasing (emit k value ++ out) := by
  cases value with
  | none => exact increasing
  | some v => exact increasing_cons.mpr ⟨below,increasing⟩

theorem Below.mergeWith {combine : Option A → Option B → Option C} {k : K} {first : List (K × A)}
    {second : List (K × B)} (below : Below k first) (below' : Below k second) :
    Below k (mergeWith combine first second) := by
  fun_induction Library.mergeWith combine first second with
  | case1 => exact Below.nil k
  | case2 l b rest ih =>
    exact emit_append (below' _ List.mem_cons_self) _ (ih below fun p member => below' p (List.mem_cons_of_mem _ member))
  | case3 l a rest ih =>
    exact emit_append (below _ List.mem_cons_self) _ (ih (fun p member => below p (List.mem_cons_of_mem _ member)) below')
  | case4 l a rest l' b rest' equal ih =>
    exact emit_append (below _ List.mem_cons_self) _ (ih (fun p member => below p (List.mem_cons_of_mem _ member))
      fun p member => below' p (List.mem_cons_of_mem _ member))
  | case5 l a rest l' b rest' less ih =>
    exact emit_append (below _ List.mem_cons_self) _ (ih (fun p member => below p (List.mem_cons_of_mem _ member)) below')
  | case6 l a rest l' b rest' greater ih =>
    exact emit_append (below' _ List.mem_cons_self) _ (ih below fun p member => below' p (List.mem_cons_of_mem _ member))

variable [Std.TransOrd K]

theorem Below.cons_of_lt {k l : K} (less : compare k l = .lt) {v : A} {rest : List (K × A)}
    (below : Below l rest) : Below k ((l,v) :: rest) := by
  intro p member
  rcases List.mem_cons.mp member with rfl | later
  · exact less
  · exact Std.TransCmp.lt_trans less (below p later)

variable [Std.LawfulEqOrd K] [BEq K] [LawfulBEq K]

omit [Std.TransOrd K] in
theorem Below.lookup {k : K} {pairs : List (K × A)} (below : Below k pairs) : pairs.lookup k = none := by
  rw [List.lookup_eq_none_iff]
  intro p member
  have less := below p member
  rw [bne_iff_ne]
  rintro rfl
  have self : compare p.1 p.1 = .eq := Std.ReflCmp.compare_self
  rw [self] at less
  contradiction

theorem lookup_emit {k : K} {value : Option C} {out : List (K × C)} (below : Below k out) (x : K) :
    (emit k value ++ out).lookup x = if x == k then value else out.lookup x := by
  cases value with
  | none =>
    by_cases same : x = k
    · simpa [emit,same] using below.lookup
    · simp [emit,same]
  | some v => exact lookup_head k v out x

/-- `out` is the result of an operation on two maps, as a list in the order of keys. -/
structure MapOp (combine : Option A → Option B → Option C) (first : List (K × A)) (second : List (K × B))
    (out : List (K × C)) : Prop where
  increasing : Increasing out
  value : ∀ k, out.lookup k = combine (first.lookup k) (second.lookup k)

/-- The least key's values are combined first, those of the other keys later. -/
theorem MapOp.emit {combine : Option A → Option B → Option C} {k : K} {a : Option A} {b : Option B}
    {first rest : List (K × A)} {second rest' : List (K × B)}
    (taken : ∀ x, first.lookup x = if x == k then a else rest.lookup x)
    (taken' : ∀ x, second.lookup x = if x == k then b else rest'.lookup x)
    (below : Below k rest) (below' : Below k rest')
    (later : MapOp combine rest rest' (Library.mergeWith combine rest rest')) :
    MapOp combine first second (Library.emit k (combine a b) ++ Library.mergeWith combine rest rest') := by
  have above : Below k (Library.mergeWith combine rest rest') := below.mergeWith below'
  refine ⟨increasing_emit above later.increasing,fun x => ?_⟩
  rw [lookup_emit above,taken,taken',later.value]
  split <;> rfl

theorem Below.lookup_other {k : K} {pairs : List (K × A)} (below : Below k pairs) (x : K) :
    pairs.lookup x = if x == k then none else pairs.lookup x := by
  by_cases same : x = k
  · simp [same,below.lookup]
  · simp [same]

theorem mapOp_mergeWith {combine : Option A → Option B → Option C} (quiet : combine none none = none)
    {first : List (K × A)} {second : List (K × B)} (increasing : Increasing first)
    (increasing' : Increasing second) : MapOp combine first second (mergeWith combine first second) := by
  fun_induction mergeWith combine first second with
  | case1 => exact ⟨List.Pairwise.nil,fun k => by simp [quiet]⟩
  | case2 k b rest ih =>
    obtain ⟨below',rest_increasing⟩ := increasing_cons.mp increasing'
    exact .emit (Below.nil k).lookup_other (lookup_head k b rest) (Below.nil k) below'
      (ih increasing rest_increasing)
  | case3 k a rest ih =>
    obtain ⟨below,rest_increasing⟩ := increasing_cons.mp increasing
    exact .emit (lookup_head k a rest) (Below.nil k).lookup_other below (Below.nil k)
      (ih rest_increasing increasing')
  | case4 k a rest k' b rest' equal ih =>
    obtain rfl := Std.LawfulEqOrd.eq_of_compare equal
    obtain ⟨below,rest_increasing⟩ := increasing_cons.mp increasing
    obtain ⟨below',rest_increasing'⟩ := increasing_cons.mp increasing'
    exact .emit (lookup_head k a rest) (lookup_head k b rest') below below'
      (ih rest_increasing rest_increasing')
  | case5 k a rest k' b rest' less ih =>
    obtain ⟨below,rest_increasing⟩ := increasing_cons.mp increasing
    have above : Below k ((k',b) :: rest') := .cons_of_lt less (increasing_cons.mp increasing').1
    exact .emit (lookup_head k a rest) above.lookup_other below above (ih rest_increasing increasing')
  | case6 k a rest k' b rest' greater ih =>
    obtain ⟨below',rest_increasing'⟩ := increasing_cons.mp increasing'
    have less : compare k' k = .lt := Std.OrientedCmp.lt_of_gt greater
    have above : Below k' ((k,a) :: rest) := .cons_of_lt less (increasing_cons.mp increasing).1
    exact .emit above.lookup_other (lookup_head k' b rest') above below' (ih increasing rest_increasing')

/-! The operations. -/

def both (f : A → B → C) : Option A → Option B → Option C
  | some a, some b => some (f a b)
  | _, _ => none

def either (f : A → A → A) : Option A → Option A → Option A
  | some a, some b => some (f a b)
  | some a, none => some a
  | none, other => other

def without : Option A → Option B → Option A
  | first, none => first
  | _, some _ => none

end

section
variable {σ γ : Type}

/-- A loop whose turn yields a list and goes on or ends; without an end within the fuel
there is no result. -/
def loop (turn : σ → List γ × Option σ) : Nat → σ → Option (List γ)
  | 0, _ => none
  | fuel + 1, s =>
    match turn s with
    | (out,none) => some out
    | (out,some s') => (loop turn fuel s').map (out ++ ·)

/-- A loop whose turns use up `size` ends, with what a function says that each turn makes
of the rest. -/
theorem loop_ends {turn : σ → List γ × Option σ} (size : σ → Nat) (result : σ → List γ)
    (turns : ∀ s, result s = (turn s).1 ++ (turn s).2.elim [] result)
    (smaller : ∀ s s', (turn s).2 = some s' → size s' < size s) {fuel : Nat} {s : σ}
    (enough : size s < fuel) : loop turn fuel s = some (result s) := by
  induction fuel generalizing s with
  | zero => omega
  | succ fuel ih =>
    rw [loop,turns s]
    have less := smaller s
    rcases turned : turn s with ⟨out,_ | s'⟩
    · simp
    · rw [turned] at less
      have small := less s' rfl
      simp only [ih (s := s') (by omega),Option.map_some,Option.elim_some]

end
end Library
