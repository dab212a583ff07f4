import Mathlib.Data.List.TakeWhile
import Eggroll.BinBatch
import Eggroll.Store

/-! `do_store` of `store_broker` (`transfer_pair.py`) over the LMDB write batch (`_lmdb.py`):
the batches of the broker are decoded and each pair is put, or merged when there is a reduce
operator. What LMDB answers to each call is given. -/
namespace Eggroll.StoreTask
open Library Format BinBatch Store

inductive LmdbError
  | badValsizeError
  | other (name : String)
deriving Repr, DecidableEq

/-- LMDB under a write transaction: its own check of a key, and what else it raises in the
call for the `i`-th pair. -/
structure Lmdb where
  max_key_size : Nat
  get_error : Nat → Bytes → Option LmdbError
  put_error : Nat → Bytes → Bytes → Option LmdbError

namespace Lmdb
variable (lmdb : Lmdb)

/-- The error of `txn.put`, if any. -/
def refuses (i : Nat) (k v : Bytes) : Option LmdbError :=
  if k = [] ∨ lmdb.max_key_size < k.length then some .badValsizeError else lmdb.put_error i k v

def txn_put (i : Nat) (db : Db) (k v : Bytes) : Except LmdbError Db :=
  match lmdb.refuses i k v with
  | some e => .error e
  | none => .ok (db.insert k v)

def txn_get (i : Nat) (db : Db) (k : Bytes) : Except LmdbError (Option Bytes) :=
  match lmdb.get_error i k with
  | some e => .error e
  | none => .ok db[k]?

end Lmdb

/-- The ValueError of `LmdbWriteBatch.put`, the error of the read in `merge`, or that of the
batches. -/
inductive TaskError
  | put (key value : Bytes) (cause : LmdbError)
  | get (cause : LmdbError)
  | batches (cause : PyError)
deriving Repr, DecidableEq

section
variable (lmdb : Lmdb)

def put (i : Nat) (db : Db) (k v : Bytes) : Except TaskError Db :=
  match lmdb.txn_put i db k v with
  | .ok db => .ok db
  | .error e => .error (.put k v e)

def new_value (merge_func : Bytes → Bytes → Bytes) (v : Bytes) : Option Bytes → Bytes
  | some old_value => merge_func old_value v
  | none => v

/-- `merge`: the read is outside the `try`; an error of the put is only logged. -/
def merge (merge_func : Bytes → Bytes → Bytes) (i : Nat) (db : Db) (k v : Bytes) : Except TaskError Db :=
  match lmdb.txn_get i db k with
  | .error e => .error (.get e)
  | .ok old_value =>
    match lmdb.txn_put i db k (new_value merge_func v old_value) with
    | .ok db => .ok db
    | .error _ => .ok db

def write (reduce_op : Option (Bytes → Bytes → Bytes)) (i : Nat) (db : Db) (pair : Pair) :
    Except TaskError Db :=
  match reduce_op with
  | none => put lmdb i db pair.1 pair.2
  | some op => merge lmdb op i db pair.1 pair.2

/-- The loop over the pairs; `i` is `done_cnt`. -/
def write_pairs (reduce_op : Option (Bytes → Bytes → Bytes)) : Nat → Db → List Pair → Except TaskError (Nat × Db)
  | i, db, [] => .ok (i,db)
  | i, db, pair :: rest =>
    match write lmdb reduce_op i db pair with
    | .error e => .error e
    | .ok db => write_pairs reduce_op (i + 1) db rest

/-- `done_cnt` and the store, or the error raised; `none` when the fuel ran out in a batch. -/
def do_store (reduce_op : Option (Bytes → Bytes → Bytes)) (db : Db) (fuel : Nat)
    (broker : List (Option Bytes)) : Option (Except TaskError (Nat × Db)) :=
  match write_pairs lmdb reduce_op 0 db (bin_batch_to_pair fuel broker).1 with
  | .error e => some (.error e)
  | .ok done =>
    match (bin_batch_to_pair fuel broker).2 with
    | .returned => some (.ok done)
    | .raised e => some (.error (.batches e))
    | .running => none

/-- The value of the put that is called for a pair; there is none when the read raises. -/
def attempted (reduce_op : Option (Bytes → Bytes → Bytes)) (i : Nat) (db : Db) (pair : Pair) : Option Bytes :=
  match reduce_op with
  | none => some pair.2
  | some op =>
    match lmdb.txn_get i db pair.1 with
    | .error _ => none
    | .ok old_value => some (new_value op pair.2 old_value)

/-- A put called in the loop raises. -/
def Refuses (reduce_op : Option (Bytes → Bytes → Bytes)) : Nat → Db → List Pair → Prop
  | _, _, [] => False
  | i, db, pair :: rest =>
    (∃ value, attempted lmdb reduce_op i db pair = some value ∧ lmdb.refuses i pair.1 value ≠ none) ∨
      ∃ db', write lmdb reduce_op i db pair = .ok db' ∧ Refuses reduce_op (i + 1) db' rest

/-- The call that is not guarded raises: the put, or the read of a merge. -/
def Stops (reduce_op : Option (Bytes → Bytes → Bytes)) (i : Nat) (pair : Pair) : Prop :=
  match reduce_op with
  | none => lmdb.refuses i pair.1 pair.2 ≠ none
  | some _ => lmdb.get_error i pair.1 ≠ none

/-- From the `i`-th pair on LMDB takes the values that are due, where `values` are those
that came before: the last value under a key, or their reduction. -/
def Accepts (reduce_op : Option (Bytes → Bytes → Bytes)) (i : Nat) (values : Bytes → List Bytes)
    (pairs : List Pair) : Prop :=
  ∀ j pair value, pairs[j]? = some pair →
    reduction reduce_op (values pair.1 ++ valuesOf pair.1 (pairs.take (j + 1))) = some value →
    lmdb.refuses (i + j) pair.1 value = none

end

/-- A task: the store it begins with, and the pairs that come in, batch by batch, with
lengths that the format can carry. -/
structure Task where
  lmdb : Lmdb
  reduce_op : Option (Bytes → Bytes → Bytes)
  db : Db
  groups : List (List Pair)
  carried : ∀ pair ∈ groups.flatten, pair.1.length < 2147483648 ∧ pair.2.length < 2147483648

namespace Task
variable (task : Task)

def pairs : List Pair := task.groups.flatten

def broker : List (Option Bytes) := task.groups.map fun group => some (batchOf group)

def run (fuel : Nat) : Option (Except TaskError (Nat × Db)) :=
  do_store task.lmdb task.reduce_op task.db fuel task.broker

/-- A pair that comes in cannot be written: LMDB takes no such key, or refuses a put. -/
inductive Unwritable (fuel : Nat) : Prop
  | key (pair : Pair) (member : pair ∈ task.pairs)
      (refused : pair.1 = [] ∨ task.lmdb.max_key_size < pair.1.length)
  | put (refused : Refuses task.lmdb task.reduce_op 0 task.db (bin_batch_to_pair fuel task.broker).1)

def stored (k : Bytes) : List Bytes := task.db[k]?.toList

/-- Nothing is lost without an error. -/
structure Sound : Prop where
  raises : ∀ fuel, task.pairs.length < fuel → task.Unwritable fuel → ∃ e, task.run fuel = some (.error e)
  stored : ∀ fuel done_cnt db, task.pairs.length < fuel → task.run fuel = some (.ok (done_cnt,db)) →
    done_cnt = task.pairs.length ∧
      ∀ k ∈ task.pairs.map Prod.fst, db[k]? = reduction task.reduce_op (task.stored k ++ valuesOf k task.pairs)

def received : List Pair := task.groups.flatMap fun group => group.takeWhile fun pair => !pair.1.isEmpty

/-- A call that the task lets through raises. -/
def Stopped : Prop := ∃ i pair, task.received[i]? = some pair ∧ Stops task.lmdb task.reduce_op i pair

/-- No key is empty, and LMDB takes every value. -/
def Accepted : Prop :=
  (∀ pair ∈ task.pairs, pair.1 ≠ []) ∧ Accepts task.lmdb task.reduce_op 0 task.stored task.pairs

end Task

private theorem turn_mark {r : PairBinReader} {pair : Pair} {rest : Bytes} (empty : pair.1 = [])
    (ahead : r.Ahead (frame pair ++ rest)) : ∃ t, r.turn = .returned t := by
  have remaining := ahead.remaining
  rw [List.length_append,frame_length] at remaining
  simp only [frame,empty,List.length_nil,List.append_assoc] at ahead
  obtain ⟨t,done,_⟩ := PairBinReader.read_int32_ahead (by decide) ahead
  have read : r.read_pair = .ok none t := by
    rw [PairBinReader.read_pair,bind_ok done]
    rfl
  exact ⟨_,by rw [PairBinReader.turn,if_pos (by omega),read]⟩

private theorem read_all_until {r : PairBinReader} (pairs : List Pair)
    (carried : ∀ pair ∈ pairs, pair.1.length < 2147483648 ∧ pair.2.length < 2147483648)
    (ahead : r.Ahead (frames pairs)) (fuel : Nat) (enough : pairs.length < fuel) :
    r.read_all fuel = (pairs.takeWhile fun pair => !pair.1.isEmpty,.returned) := by
  induction pairs generalizing r fuel with
  | nil =>
    obtain ⟨fuel,rfl⟩ := Nat.exists_eq_succ_of_ne_zero (Nat.ne_of_gt enough)
    rw [PairBinReader.read_all,PairBinReader.turn_end ahead]
    rfl
  | cons pair rest ih =>
    obtain ⟨fuel,rfl⟩ := Nat.exists_eq_succ_of_ne_zero (by omega : fuel ≠ 0)
    rw [frames_cons] at ahead
    by_cases empty : pair.1 = []
    · obtain ⟨t,ended⟩ := turn_mark empty ahead
      rw [PairBinReader.read_all,ended]
      simp [empty]
    · obtain ⟨small,small'⟩ := carried pair List.mem_cons_self
      obtain ⟨t,yielded,after⟩ := PairBinReader.turn_frame ⟨empty,small,small'⟩ ahead
      have later := ih (fun p member => carried p (List.mem_cons_of_mem _ member)) after fuel
        (by simpa using enough)
      rw [PairBinReader.read_all,yielded]
      simp [later,empty]

private theorem decode_groups (groups : List (List Pair))
    (carried : ∀ pair ∈ groups.flatten, pair.1.length < 2147483648 ∧ pair.2.length < 2147483648)
    (fuel : Nat) (enough : groups.flatten.length < fuel) :
    bin_batch_to_pair fuel (groups.map fun group => some (batchOf group)) =
      (groups.flatMap fun group => group.takeWhile fun pair => !pair.1.isEmpty,.returned) := by
  induction groups with
  | nil => rfl
  | cons group rest ih =>
    rw [List.flatten_cons,List.length_append] at enough
    have later := ih (fun p member => carried p (by rw [List.flatten_cons]; simp only [List.mem_append,member,or_true]))
      (by omega)
    obtain ⟨r,created,ahead⟩ := PairBinReader.create_header (frames group)
    have now : read_batch fuel (some (batchOf group)) =
        (group.takeWhile fun pair => !pair.1.isEmpty,.returned) := by
      rw [read_batch,batchOf,created]
      exact read_all_until group (fun p member => carried p (by simp [member])) ahead fuel (by omega)
    rw [List.map_cons,bin_batch_to_pair,now]
    simp only [later,List.flatMap_cons]

theorem Task.decoded (task : Task) {fuel : Nat} (enough : task.pairs.length < fuel) :
    bin_batch_to_pair fuel task.broker = (task.received,.returned) :=
  decode_groups task.groups task.carried fuel enough

theorem Task.run_eq (task : Task) {fuel : Nat} (enough : task.pairs.length < fuel) :
    task.run fuel = some (write_pairs task.lmdb task.reduce_op 0 task.db task.received) := by
  rw [run,do_store,task.decoded enough]
  cases write_pairs task.lmdb task.reduce_op 0 task.db task.received <;> rfl

section
variable {lmdb : Lmdb} {reduce_op : Option (Bytes → Bytes → Bytes)} {i : Nat}

private theorem write_stops (db : Db) {pair : Pair} (stops : Stops lmdb reduce_op i pair) :
    ∃ e, write lmdb reduce_op i db pair = .error e := by
  cases reduce_op with
  | none =>
    obtain ⟨e,refused⟩ := Option.ne_none_iff_exists'.mp stops
    exact ⟨.put pair.1 pair.2 e,by simp only [write,put,Lmdb.txn_put,refused]⟩
  | some op =>
    obtain ⟨e,failed⟩ := Option.ne_none_iff_exists'.mp stops
    exact ⟨.get e,by simp only [write,merge,Lmdb.txn_get,failed]⟩

private theorem write_pairs_stops (db : Db) {pairs : List Pair} {j : Nat} {pair : Pair} (found : pairs[j]? = some pair)
    (stops : Stops lmdb reduce_op (i + j) pair) : ∃ e, write_pairs lmdb reduce_op i db pairs = .error e := by
  induction pairs generalizing i db j with
  | nil => simp at found
  | cons first rest ih =>
    cases written : write lmdb reduce_op i db first with
    | error e => exact ⟨e,by rw [write_pairs,written]⟩
    | ok db' =>
      cases j with
      | zero =>
        cases found
        obtain ⟨e,failed⟩ := write_stops db stops
        rw [Nat.add_zero,written] at failed
        contradiction
      | succ j =>
        have later : Stops lmdb reduce_op (i + 1 + j) pair := by rwa [Nat.add_right_comm]
        obtain ⟨e,failed⟩ := ih db' found later
        exact ⟨e,by rw [write_pairs,written]; exact failed⟩

private theorem write_goes {db : Db} {pair : Pair} {values : Bytes → List Bytes} (goes : ¬ Stops lmdb reduce_op i pair)
    (before : ∀ k, db[k]? = reduction reduce_op (values k)) :
    ∃ value, reduction reduce_op (values pair.1 ++ [pair.2]) = some value ∧
      attempted lmdb reduce_op i db pair = some value ∧
      write lmdb reduce_op i db pair =
        .ok (if lmdb.refuses i pair.1 value = none then db.insert pair.1 value else db) := by
  cases reduce_op with
  | none =>
    have taken : lmdb.refuses i pair.1 pair.2 = none := by simpa [Stops] using goes
    exact ⟨pair.2,by simp [reduction],rfl,by simp [write,put,Lmdb.txn_put,taken]⟩
  | some op =>
    have read : lmdb.get_error i pair.1 = none := by simpa [Stops] using goes
    refine ⟨new_value op pair.2 db[pair.1]?,?_,by simp only [attempted,Lmdb.txn_get,read],?_⟩
    · rw [before,reduction,reduction,reduceAll_concat]
      cases reduceAll op (values pair.1) <;> rfl
    · simp only [write,merge,Lmdb.txn_get,read,Lmdb.txn_put]
      cases lmdb.refuses i pair.1 (new_value op pair.2 db[pair.1]?) <;> simp

private theorem accepts_cons {values : Bytes → List Bytes} {pair : Pair} {rest : List Pair} {value : Bytes}
    (due : reduction reduce_op (values pair.1 ++ [pair.2]) = some value) :
    Accepts lmdb reduce_op i values (pair :: rest) ↔ lmdb.refuses i pair.1 value = none ∧
      Accepts lmdb reduce_op (i + 1) (fun k => values k ++ valuesOf k [pair]) rest := by
  constructor
  · intro accepts
    refine ⟨accepts 0 pair value rfl (by simpa [valuesOf_cons] using due),fun j later v found last => ?_⟩
    rw [Nat.add_right_comm,Nat.add_assoc]
    refine accepts (j + 1) later v found ?_
    rw [List.take_succ_cons,← List.singleton_append (l := rest.take (j + 1)),valuesOf_append,← List.append_assoc]
    exact last
  · intro both j later v found last
    cases j with
    | zero =>
      cases found
      have same : some v = some value := by rw [← last,← due]; simp [valuesOf_cons]
      cases same
      exact both.1
    | succ j =>
      rw [← Nat.add_assoc,Nat.add_right_comm]
      refine both.2 j later v found ?_
      rw [List.append_assoc,← valuesOf_append]
      exact last

private theorem reduction_toList (reduce_op : Option (Bytes → Bytes → Bytes)) (value : Option Bytes) :
    reduction reduce_op value.toList = value := by
  cases reduce_op <;> cases value <;> rfl

private theorem goes_later {first : Pair} {rest : List Pair}
    (goes : ∀ j pair, (first :: rest)[j]? = some pair → ¬ Stops lmdb reduce_op (i + j) pair) (j : Nat) (pair : Pair)
    (found : rest[j]? = some pair) : ¬ Stops lmdb reduce_op (i + 1 + j) pair := by
  rw [Nat.add_right_comm]
  exact goes (j + 1) pair found

private theorem write_pairs_returns (db : Db) {pairs : List Pair}
    (goes : ∀ j pair, pairs[j]? = some pair → ¬ Stops lmdb reduce_op (i + j) pair) :
    ∃ db', write_pairs lmdb reduce_op i db pairs = .ok (i + pairs.length,db') := by
  induction pairs generalizing i db with
  | nil => exact ⟨db,rfl⟩
  | cons pair rest ih =>
    obtain ⟨value,_,_,written⟩ := write_goes (goes 0 pair rfl)
      fun k => (reduction_toList reduce_op db[k]?).symm
    obtain ⟨db',later⟩ := ih (if lmdb.refuses i pair.1 value = none then db.insert pair.1 value else db)
      (goes_later goes)
    refine ⟨db',?_⟩
    rw [Nat.add_zero] at written
    rw [write_pairs,written]
    simp only [later,List.length_cons]
    rw [Nat.add_right_comm,Nat.add_assoc]

private theorem insert_due {db : Db} {values : Bytes → List Bytes} (before : ∀ k, db[k]? = reduction reduce_op (values k))
    {pair : Pair} {value : Bytes} (due : reduction reduce_op (values pair.1 ++ [pair.2]) = some value) (k : Bytes) :
    (db.insert pair.1 value)[k]? = reduction reduce_op (values k ++ valuesOf k [pair]) := by
  rw [Std.ExtTreeMap.getElem?_insert,valuesOf_cons,valuesOf_nil]
  by_cases same : pair.1 = k
  · subst same
    simp [due]
  · simp [same,before]

private theorem write_pairs_accepted {db : Db} {pairs : List Pair} {values : Bytes → List Bytes}
    (goes : ∀ j pair, pairs[j]? = some pair → ¬ Stops lmdb reduce_op (i + j) pair)
    (before : ∀ k, db[k]? = reduction reduce_op (values k)) (accepts : Accepts lmdb reduce_op i values pairs) :
    ¬ Refuses lmdb reduce_op i db pairs ∧
      ∃ db', write_pairs lmdb reduce_op i db pairs = .ok (i + pairs.length,db') ∧
        ∀ k, db'[k]? = reduction reduce_op (values k ++ valuesOf k pairs) := by
  induction pairs generalizing i db values with
  | nil => exact ⟨id,db,rfl,by simpa using before⟩
  | cons pair rest ih =>
    obtain ⟨value,due,attempt,written⟩ := write_goes (goes 0 pair rfl) before
    obtain ⟨taken,accepts⟩ := (accepts_cons due).mp accepts
    rw [Nat.add_zero] at attempt written
    rw [if_pos taken] at written
    obtain ⟨accepted,db',later,state⟩ := ih (goes_later goes) (insert_due before due) accepts
    refine ⟨?_,db',?_,fun k => ?_⟩
    · rintro (⟨v,attempt',refused⟩ | ⟨db',written',refused⟩)
      · rw [attempt] at attempt'
        cases attempt'
        exact refused taken
      · rw [written] at written'
        cases written'
        exact accepted refused
    · rw [write_pairs,written]
      simp only [later,List.length_cons]
      rw [Nat.add_right_comm,Nat.add_assoc]
    · rw [state,← List.singleton_append (l := rest),valuesOf_append,List.append_assoc]

private theorem accepts_of_not_refuses {db : Db} {pairs : List Pair} {values : Bytes → List Bytes}
    (goes : ∀ j pair, pairs[j]? = some pair → ¬ Stops lmdb reduce_op (i + j) pair)
    (before : ∀ k, db[k]? = reduction reduce_op (values k)) (accepted : ¬ Refuses lmdb reduce_op i db pairs) :
    Accepts lmdb reduce_op i values pairs := by
  induction pairs generalizing i db values with
  | nil => exact fun j pair value found => by simp at found
  | cons pair rest ih =>
    obtain ⟨value,due,attempt,written⟩ := write_goes (goes 0 pair rfl) before
    rw [Nat.add_zero] at attempt written
    have taken : lmdb.refuses i pair.1 value = none := by
      by_contra refused
      exact accepted (.inl ⟨value,attempt,refused⟩)
    rw [if_pos taken] at written
    have later := ih (goes_later goes) (insert_due before due) fun refused => accepted (.inr ⟨_,written,refused⟩)
    exact (accepts_cons due).mpr ⟨taken,later⟩

private theorem reduction_isSome (reduce_op : Option (Bytes → Bytes → Bytes)) {values : List Bytes} (some_value : values ≠ []) :
    ∃ value, reduction reduce_op values = some value := by
  obtain ⟨v,rest,rfl⟩ := List.exists_cons_of_ne_nil some_value
  cases reduce_op with
  | none => exact ⟨_,List.getLast?_eq_some_getLast some_value⟩
  | some op => exact ⟨_,rfl⟩

theorem Accepts.short {values : Bytes → List Bytes} {pairs : List Pair}
    (accepts : Accepts lmdb reduce_op i values pairs) {pair : Pair} (member : pair ∈ pairs) :
    pair.1.length ≤ lmdb.max_key_size := by
  by_contra long
  obtain ⟨j,found⟩ := List.mem_iff_getElem?.mp member
  have last : pairs.take (j + 1) = pairs.take j ++ [pair] := by rw [List.take_add_one,found]; rfl
  have some_value : values pair.1 ++ valuesOf pair.1 (pairs.take (j + 1)) ≠ [] := by
    rw [last]
    simp [valuesOf_cons]
  obtain ⟨value,due⟩ := reduction_isSome reduce_op some_value
  have taken := accepts j pair value found due
  rw [Lmdb.refuses,if_pos (.inr (by omega))] at taken
  contradiction

end

private theorem Task.received_eq (task : Task) (nonempty : ∀ pair ∈ task.pairs, pair.1 ≠ []) :
    task.received = task.pairs := by
  have whole (group : List Pair) (member : group ∈ task.groups) :
      group.takeWhile (fun pair => !pair.1.isEmpty) = group := by
    rw [List.takeWhile_eq_self_iff]
    intro pair inside
    simpa using nonempty pair (List.mem_flatten.mpr ⟨group,member,inside⟩)
  rw [received,pairs,← List.flatMap_id',List.flatMap_congr whole]

private theorem Task.stored_reduction (task : Task) (k : Bytes) :
    task.db[k]? = reduction task.reduce_op (task.stored k) :=
  (reduction_toList task.reduce_op _).symm

theorem Task.Stopped.sound {task : Task} (stopped : task.Stopped) : task.Sound := by
  obtain ⟨i,pair,found,stops⟩ := stopped
  obtain ⟨e,failed⟩ := write_pairs_stops task.db found (by rwa [Nat.zero_add])
  constructor
  · intro fuel enough _
    exact ⟨e,by rw [task.run_eq enough,failed]⟩
  · intro fuel done_cnt db enough returned
    rw [task.run_eq enough,failed] at returned
    simp at returned

theorem Task.Accepted.sound {task : Task} (accepted : task.Accepted) (goes : ¬ task.Stopped) : task.Sound := by
  obtain ⟨nonempty,accepts⟩ := accepted
  have received := task.received_eq nonempty
  obtain ⟨taken,db',done,state⟩ := write_pairs_accepted
    (fun j pair found stops => goes ⟨j,pair,received.symm ▸ found,by rwa [Nat.zero_add] at stops⟩)
    task.stored_reduction accepts
  constructor
  · intro fuel enough unwritable
    cases unwritable with
    | key pair member refused =>
      have short := accepts.short member
      rcases refused with empty | long
      · exact absurd empty (nonempty pair member)
      · omega
    | put refused =>
      rw [task.decoded enough,received] at refused
      exact absurd refused taken
  · intro fuel done_cnt db enough returned
    rw [task.run_eq enough,received,done] at returned
    cases returned
    exact ⟨Nat.zero_add _,fun k _ => state k⟩

/-- Nothing is lost silently exactly where a call that is not guarded raises, or else no key
is empty and LMDB takes every value: a put that a merge loses raises nothing, and neither
does a batch that is cut at an empty key. -/
theorem store_task_sound (task : Task) : task.Sound ↔ task.Stopped ∨ task.Accepted := by
  constructor
  · intro sound
    by_cases stopped : task.Stopped
    · exact .inl stopped
    · have goes (j : Nat) (pair : Pair) (found : task.received[j]? = some pair) :
          ¬ Stops task.lmdb task.reduce_op (0 + j) pair :=
        fun stops => stopped ⟨j,pair,found,by rwa [Nat.zero_add] at stops⟩
      obtain ⟨db',done⟩ := write_pairs_returns task.db goes
      have writable : ¬ task.Unwritable (task.pairs.length + 1) := by
        intro unwritable
        obtain ⟨e,failed⟩ := sound.raises _ (Nat.lt_succ_self _) unwritable
        rw [task.run_eq (Nat.lt_succ_self _),done] at failed
        simp at failed
      have nonempty (pair : Pair) (member : pair ∈ task.pairs) : pair.1 ≠ [] :=
        fun empty => writable (.key pair member (.inl empty))
      rw [task.received_eq nonempty] at goes
      refine .inr ⟨nonempty,accepts_of_not_refuses goes task.stored_reduction fun refused => writable (.put ?_)⟩
      rwa [task.decoded (Nat.lt_succ_self _),task.received_eq nonempty]
  · rintro (stopped | accepted)
    · exact stopped.sound
    · by_cases stopped : task.Stopped
      · exact stopped.sound
      · exact accepted.sound stopped

/-- A merge of a pair whose key is longer than LMDB's 511 bytes. -/
theorem merge_loses_pair : ¬ ∀ task : Task, task.Sound := by
  intro always
  let lmdb : Lmdb := ⟨511,fun _ _ => none,fun _ _ _ => none⟩
  let key : Bytes := List.replicate 512 7
  have long : key.length = 512 := List.length_replicate
  clear_value key
  let pair : Pair := (key,[1])
  let task : Task := ⟨lmdb,some fun old _ => old,∅,[[pair]],by simp [pair,long]⟩
  obtain ⟨e,failed⟩ := (always task).raises 2 (by simp [task,Task.pairs])
    (.key pair (by simp [task,Task.pairs]) (.inr (by simp [task,lmdb,pair,long])))
  rw [task.run_eq (by simp [task,Task.pairs])] at failed
  have present : key ≠ [] := by
    rintro rfl
    simp at long
  simp [Task.received,task,pair,lmdb,write_pairs,write,merge,Lmdb.txn_get,Lmdb.txn_put,Lmdb.refuses,long,present] at failed

end Eggroll.StoreTask
