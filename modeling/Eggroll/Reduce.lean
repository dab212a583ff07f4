import Eggroll.Library.Reducing
import Eggroll.MetaRoundTrip
import Eggroll.TaskFutures

/-! `Reduce` (`_reduce.py`): each partition folds its own values, and the driver folds what
the partitions answer. On the wire a partition without values and one whose fold is empty
answer the same, and the driver leaves out both. -/
namespace Eggroll.Reduce
open Library Library.Protobuf MetaModel
open SubmitUtils (Waited _futures_wait returns_perm)

/-- A partition, whose id came with its task. -/
structure Partition where
  id : Int
  sent : InInt32 id
  values : List Bytes

/-- The loop of `run`: whether no value has come yet, and `seq_op_result`. -/
def run_loop (seq_op : Bytes → Bytes → Bytes) : Bool × Option Bytes → List Bytes → Option Bytes
  | (_,seq_op_result), [] => seq_op_result
  | (first,seq_op_result), v_bytes :: rest =>
    if first then run_loop seq_op (false,some v_bytes) rest
    else run_loop seq_op (false,seq_op_result.map fun result => seq_op result v_bytes) rest

/-- `run`, with the response as it is read at the driver. -/
def run (seq_op : Bytes → Bytes → Bytes) (partition : Partition) : Except Raised ReduceResponse :=
  let value := run_loop seq_op (true,none) partition.values
  (construct .reduceResponse [("id",.int partition.id),("value",value.elim .unset .bytes)]).map ReduceResponse.from_proto

/-- What the futures of the job's tasks end with. -/
def responses (func : Bytes → Bytes → Bytes) (partitions : List Partition) : List (Except Raised ReduceResponse) :=
  partitions.map (run func)

/-- `[r[0].value for r in results if r[0].value]`. -/
def present (results : List ReduceResponse) : List Bytes :=
  (results.map ReduceResponse.value).filter fun value => !value.isEmpty

/-- `functools.reduce`, or `None` when nothing is present. -/
def reduce (func : Bytes → Bytes → Bytes) {partitions : List Partition} (w : Waited (responses func partitions)) :
    Except Raised (Option Bytes) := do
  let results ← _futures_wait w
  pure (Library.reduce func (present results))

/-- The fold of all values, and `None` for none. -/
structure FoldsAll (func : Bytes → Bytes → Bytes) (values : List Bytes) (result : Except Raised (Option Bytes)) :
    Prop where
  fold : result = .ok (Library.reduce func values)
  none_iff : result = .ok none ↔ values = []

def Partition.vanishes (func : Bytes → Bytes → Bytes) (partition : Partition) : Bool :=
  Library.reduce func partition.values == some []

/-- No partition's fold is empty, or the values of these partitions change nothing when they
are combined with those of the others, of which there are some. -/
def Neutral (func : Bytes → Bytes → Bytes) (partitions : List Partition) : Prop :=
  (∀ partition ∈ partitions, partition.vanishes func = false) ∨ ∃ vanished others,
    Library.reduce func ((partitions.filter (Partition.vanishes func)).flatMap Partition.values) = some vanished ∧
    Library.reduce func ((partitions.filter fun p => !p.vanishes func).flatMap Partition.values) = some others ∧
    func vanished others = others

private theorem run_loop_fold (seq_op : Bytes → Bytes → Bytes) (result : Bytes) (values : List Bytes) :
    run_loop seq_op (false,some result) values = some (values.foldl seq_op result) := by
  induction values generalizing result with
  | nil => rfl
  | cons v_bytes rest ih => exact ih (seq_op result v_bytes)

private theorem run_loop_reduce (seq_op : Bytes → Bytes → Bytes) (values : List Bytes) :
    run_loop seq_op (true,none) values = Library.reduce seq_op values := by
  cases values with
  | nil => rfl
  | cons v_bytes rest => exact run_loop_fold seq_op v_bytes rest

theorem run_ok (seq_op : Bytes → Bytes → Bytes) (partition : Partition) :
    run seq_op partition = .ok ⟨partition.id,(Library.reduce seq_op partition.values).getD []⟩ := by
  have range : InInt64 partition.id := by
    have sent := partition.sent
    unfold InInt32 at sent
    unfold InInt64
    omega
  rw [run,run_loop_reduce]
  cases Library.reduce seq_op partition.values with
  | none =>
    have made := construct_ok.mpr
      ⟨(by simp [checked,List.lookup_cons,range] : checked MessageType.reduceResponse
        [("id",.int partition.id),("value",.unset)] = true),rfl⟩
    exact congrArg (Except.map ReduceResponse.from_proto) made
  | some value =>
    have made := construct_ok.mpr
      ⟨(by simp [checked,List.lookup_cons,range] : checked MessageType.reduceResponse
        [("id",.int partition.id),("value",.bytes value)] = true),rfl⟩
    exact congrArg (Except.map ReduceResponse.from_proto) made

variable (func : Bytes → Bytes → Bytes)

def folds (partitions : List Partition) : List Bytes :=
  (partitions.filter fun p => !p.vanishes func).filterMap fun p => Library.reduce func p.values

private theorem present_answers (partitions : List Partition) :
    present (partitions.map fun p => ⟨p.id,(Library.reduce func p.values).getD []⟩) = folds func partitions := by
  unfold present folds Partition.vanishes
  induction partitions with
  | nil => rfl
  | cons partition rest ih =>
    rw [List.map_cons,List.map_cons,List.filter_cons,List.filter_cons,ih]
    cases folded : Library.reduce func partition.values with
    | none =>
      rw [if_neg (by simp),if_pos (by simp),List.filterMap_cons,folded]
    | some value =>
      cases value with
      | nil => rw [if_neg (by simp),if_neg (by simp)]
      | cons byte bytes => rw [if_pos (by simp),if_pos (by simp),List.filterMap_cons,folded,Option.getD_some]

theorem reduce_eq [Std.Associative func] [Std.Commutative func] (partitions : List Partition)
    (w : Waited (responses func partitions)) :
    reduce func w = .ok (Library.reduce func ((partitions.filter fun p => !p.vanishes func).flatMap Partition.values)) := by
  have shape : responses func partitions =
      (partitions.map fun p => (⟨p.id,(Library.reduce func p.values).getD []⟩ : ReduceResponse)).map .ok := by
    rw [List.map_map]
    exact List.map_congr_left fun p _ => run_ok func p
  obtain ⟨results,collected,perm⟩ := returns_perm _ w shape
  have same : (present results).Perm (folds func partitions) := by
    rw [← present_answers]
    exact (perm.map _).filter _
  rw [reduce,collected]
  exact congrArg Except.ok ((reduce_perm func same).trans (reduce_flatMap func _ Partition.values).symm)

private theorem foldsAll_iff {values : List Bytes} {result : Except Raised (Option Bytes)} :
    FoldsAll func values result ↔ result = .ok (Library.reduce func values) := by
  constructor
  · exact FoldsAll.fold
  · intro fold
    refine ⟨fold,?_⟩
    rw [fold,Except.ok.injEq,reduce_eq_none]

private theorem neutral_iff [Std.Associative func] [Std.Commutative func] (partitions : List Partition) :
    Library.reduce func ((partitions.filter fun p => !p.vanishes func).flatMap Partition.values) =
      Library.reduce func (partitions.flatMap Partition.values) ↔ Neutral func partitions := by
  rw [reduce_partition func partitions Partition.values (Partition.vanishes func)]
  by_cases none_vanishes : ∀ partition ∈ partitions, partition.vanishes func = false
  · have kept : partitions.filter (Partition.vanishes func) = [] :=
      List.filter_eq_nil_iff.mpr fun p member => by rw [none_vanishes p member]; exact Bool.false_ne_true
    rw [kept]
    exact ⟨fun _ => .inl none_vanishes,fun _ => (Option.merge_none_left ..).symm⟩
  have some_vanish : ∃ vanished, Library.reduce func
      ((partitions.filter (Partition.vanishes func)).flatMap Partition.values) = some vanished := by
    rw [← Option.ne_none_iff_exists',ne_eq,reduce_eq_none,List.flatMap_eq_nil_iff]
    intro empty
    apply none_vanishes
    intro partition member
    by_contra vanishes
    rw [Bool.not_eq_false] at vanishes
    have no_values := empty partition (List.mem_filter.mpr ⟨member,vanishes⟩)
    rw [Partition.vanishes,no_values] at vanishes
    cases vanishes
  obtain ⟨vanished,some_⟩ := some_vanish
  unfold Neutral
  rw [some_]
  cases rest : Library.reduce func ((partitions.filter fun p => !p.vanishes func).flatMap Partition.values) with
  | none =>
    constructor
    · intro same
      cases same
    · rintro (absent | ⟨_,_,_,present,_⟩)
      · exact absurd absent none_vanishes
      · cases present
  | some others =>
    constructor
    · intro same
      exact .inr ⟨vanished,others,rfl,rfl,(Option.some.inj same).symm⟩
    · rintro (absent | ⟨_,_,one,two,neutral⟩)
      · exact absurd absent none_vanishes
      · cases one
        cases two
        exact congrArg some neutral.symm

/-- What the driver returns is the fold of all values if and only if what it leaves out is
neutral, however the values are ordered and whichever partitions answer first. -/
theorem reduce_independent [Std.Associative func] [Std.Commutative func] (partitions : List Partition)
    (values : List Bytes) (distributed : values.Perm (partitions.flatMap Partition.values))
    (w : Waited (responses func partitions)) :
    FoldsAll func values (reduce func w) ↔ Neutral func partitions := by
  rw [foldsAll_iff,reduce_eq,reduce_perm func distributed,Except.ok.injEq,neutral_iff]

def columnSum : Bytes → Bytes → Bytes := List.zipWith (· + ·)

instance : Std.Commutative columnSum := ⟨fun _ _ => List.zipWith_comm_of_comm UInt8.add_comm⟩

instance : Std.Associative columnSum := by
  constructor
  intro a b c
  unfold columnSum
  induction a generalizing b c with
  | nil => rfl
  | cons x xs ih =>
    cases b with
    | nil => rfl
    | cons y ys =>
      cases c with
      | nil => rfl
      | cons z zs => simp only [List.zipWith_cons_cons,UInt8.add_assoc,ih]

/-- One of three partitions has no values; the last one is the first of the set. -/
theorem reduce_independent_absent :
    let partitions : List Partition := [⟨0,by decide,[[1,2]]⟩,⟨1,by decide,[]⟩,⟨2,by decide,[[3,4],[5,6]]⟩]
    ∃ w : Waited (responses columnSum partitions), w.iterated = (List.finRange _).reverse ∧
      reduce columnSum w = .ok (some [9,12]) := by
  intro partitions
  let w : Waited (responses columnSum partitions) := .whole _ (List.reverse_perm _)
  have folds := (reduce_independent columnSum partitions [[1,2],[3,4],[5,6]] (List.Perm.refl _) w).mpr
    (.inl (by decide))
  exact ⟨w,rfl,folds.fold⟩

/-- The empty string is the fold of all values and of those of the first partition, which is
left out. -/
theorem reduce_drops_empty :
    let partitions : List Partition := [⟨0,by decide,[[]]⟩,⟨1,by decide,[[1]]⟩]
    ∃ w : Waited (responses columnSum partitions), reduce columnSum w = .ok (some [1]) ∧
      ¬ FoldsAll columnSum [[],[1]] (reduce columnSum w) := by
  intro partitions
  let w : Waited (responses columnSum partitions) := .whole _ (List.Perm.refl _)
  have dropped : reduce columnSum w = .ok (some [1]) := reduce_eq columnSum partitions w
  refine ⟨w,dropped,fun folds => ?_⟩
  cases dropped.symm.trans folds.fold

end Eggroll.Reduce
