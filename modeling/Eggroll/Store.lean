import Mathlib.Tactic.Linarith
import Eggroll.Format
import Eggroll.Library.Keyed

/-! The LMDB store of a partition (`_lmdb.py`): a map that is iterated in the order of its
keys, written through `LmdbWriteBatch`. `accepts` is LMDB's own check of a key. -/
namespace Eggroll.Store
open Library Format

abbrev Db := Std.ExtTreeMap Bytes Bytes

/-- The ValueError of `LmdbWriteBatch.put`, with the key and value its text shows. -/
inductive StoreError
  | put (key value : Bytes)
deriving Repr, DecidableEq

section
variable (accepts : Bytes → Bool)

def put (db : Db) (k v : Bytes) : Except StoreError Db :=
  if accepts k then .ok (db.insert k v) else .error (.put k v)

/-- `merge`: a put that LMDB refuses is only logged. -/
def merge (merge_func : Bytes → Bytes → Bytes) (db : Db) (k v : Bytes) : Db :=
  let new_value := match db[k]? with
    | some old_value => merge_func old_value v
    | none => v
  if accepts k then db.insert k new_value else db

/-- One pair in `do_store`: a put, or a merge when there is a reduce operator. -/
def store (reduce_op : Option (Bytes → Bytes → Bytes)) (db : Db) (pair : Pair) :
    Except StoreError Db :=
  match reduce_op with
  | none => put accepts db pair.1 pair.2
  | some op => .ok (merge accepts op db pair.1 pair.2)

end

theorem put_get {accepts : Bytes → Bool} {db db' : Db} {k v : Bytes}
    (done : put accepts db k v = .ok db') (key : Bytes) :
    db'[key]? = if k = key then some v else db[key]? := by
  unfold put at done
  split at done
  · cases done
    rw [Std.ExtTreeMap.getElem?_insert]
    by_cases same : k = key
    · simp [same]
    · simp [same]
  · cases done

/-- What puts or merges leave of the values of one key: the last one, or their
reduction. -/
def reduction (reduce_op : Option (Bytes → Bytes → Bytes)) (values : List Bytes) : Option Bytes :=
  match reduce_op with
  | none => values.getLast?
  | some op => reduceAll op values

theorem reduction_perm {reduce_op : Option (Bytes → Bytes → Bytes)} {first second : List Bytes}
    (lawful : ∀ op, reduce_op = some op →
      (∀ a b c, op (op a b) c = op a (op b c)) ∧ ∀ a b, op a b = op b a)
    (single : reduce_op = none → second.length ≤ 1) (perm : first.Perm second) :
    reduction reduce_op first = reduction reduce_op second := by
  cases reduce_op with
  | some op =>
    obtain ⟨assoc,comm⟩ := lawful op rfl
    exact reduceAll_perm assoc comm perm
  | none =>
    have short := single rfl
    match second, short with
    | [], _ => rw [perm.eq_nil]
    | [v], _ => rw [List.perm_singleton.mp perm]

theorem store_get {accepts : Bytes → Bool} {reduce_op : Option (Bytes → Bytes → Bytes)} {db db' : Db}
    {pair : Pair} (accepted : accepts pair.1 = true)
    (stored : store accepts reduce_op db pair = .ok db') {values : Bytes → List Bytes}
    (before : ∀ k, db[k]? = reduction reduce_op (values k)) (k : Bytes) :
    db'[k]? = reduction reduce_op (values k ++ valuesOf k [pair]) := by
  rw [valuesOf_cons,valuesOf_nil]
  cases reduce_op with
  | none =>
    rw [put_get stored k]
    by_cases same : pair.1 = k
    · simp [same,reduction]
    · simp [same,before]
  | some op =>
    simp only [store,merge,accepted,if_true,Except.ok.injEq] at stored
    subst stored
    rw [Std.ExtTreeMap.getElem?_insert]
    by_cases same : pair.1 = k
    · have old := before pair.1
      simp only [same,reduction] at old
      simp only [Std.LawfulEqCmp.compare_eq_iff_eq,same,if_true,reduction,reduceAll_concat,← old]
      cases db[k]? <;> rfl
    · simp [same,before]

theorem store_mem {accepts : Bytes → Bool} {reduce_op : Option (Bytes → Bytes → Bytes)} {db db' : Db}
    {pair : Pair} (stored : store accepts reduce_op db pair = .ok db') {k : Bytes} (member : k ∈ db') :
    k = pair.1 ∨ k ∈ db := by
  have inserted (v : Bytes) (inside : k ∈ db.insert pair.1 v) : k = pair.1 ∨ k ∈ db := by
    rw [Std.ExtTreeMap.mem_insert] at inside
    exact inside.imp_left fun same => (Std.LawfulEqCmp.eq_of_compare same).symm
  cases reduce_op with
  | none =>
    simp only [store,put] at stored
    split at stored
    · cases stored
      exact inserted _ member
    · contradiction
  | some op =>
    simp only [store,merge,Except.ok.injEq] at stored
    split at stored
    · subst stored
      exact inserted _ member
    · exact .inr (stored ▸ member)

end Eggroll.Store
