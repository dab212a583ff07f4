import Mathlib.Algebra.BigOperators.Ring.Finset
import Eggroll.BatchLimit
import Eggroll.Reduce
import Eggroll.TableMaps

/-! What callers read from tables: `get_all` and `take` through the batches that the partitions
send one after the other, `count` and `reduce` from what their tasks answer. All of it agrees
with the map that a table is. -/
namespace Eggroll.BinBatch
open Library Format

private theorem run_unlimited (configured : Int) (room : 16 ≤ configured) (pairs : List Pair)
    (encodable : ∀ pair ∈ pairs, Encodable pair) :
    DecodesTo (GetAll.run configured pairs (-1)).1 pairs ∧ (GetAll.run configured pairs (-1)).2 = .returned := by
  obtain ⟨w,committed,_,_,empty⟩ := commit_ok configured none room
  obtain ⟨groups,encoded,joined⟩ := encode_ok room pairs encodable (e := ⟨w,0⟩) empty
  rw [List.nil_append] at joined
  have shape : GetAll.run configured pairs (-1) = (groups.map (fun group => some (batchOf group)),.returned) := by
    rw [GetAll.run,if_pos (by omega),pair_to_bin_batch]
    simp only [show (-1 : Int) ≤ 0 from by omega,if_true,committed,encoded]
  rw [shape]
  refine ⟨fun fuel enough => ?_,rfl⟩
  rw [decode_batches groups (joined ▸ encodable) fuel (joined ▸ enough),joined]

private theorem Fill.given_ge (sendbuf_size n : Nat) {l : Fill} (pairs : List Pair) (encodable : ∀ pair ∈ pairs, Encodable pair)
    (counted : l.pair_count ≤ l.written) :
    min n (l.written + pairs.length) ≤ l.given sendbuf_size n pairs := by
  induction pairs generalizing l with
  | nil => exact Nat.min_le_right _ _
  | cons pair rest ih =>
    have more : (pair :: rest).length = rest.length + 1 := List.length_cons
    rw [Fill.given,if_pos (encodable pair List.mem_cons_self)]
    split
    · omega
    · have later := ih (l := l.place sendbuf_size pair) (fun p member => encodable p (List.mem_cons_of_mem _ member)) (by
        rw [Fill.place_pair_count,Fill.place_written]
        split <;> omega)
      rw [Fill.place_written] at later
      omega

private theorem run_limited (configured : Nat) (room : 16 ≤ configured) (n : Nat) (pairs : List Pair)
    (encodable : ∀ pair ∈ pairs, Encodable pair) :
    ∃ sent, min n pairs.length ≤ sent ∧ DecodesTo (GetAll.run configured pairs n).1 (pairs.take sent) ∧
      (GetAll.run configured pairs n).2 = .returned := by
  obtain ⟨w,committed,length,_,empty⟩ := commit_ok configured none (by omega)
  have shape : GetAll.run configured pairs n = ((encode configured (some n) none pairs ⟨w,0⟩).1,.returned) := by
    rw [GetAll.run,if_neg (by omega),pair_to_bin_batch]
    simp only [show (-1 : Int) ≤ 0 from by omega,if_true,committed]
  have given := decodes_given configured n room pairs (fun pair member => (encodable pair member).nonempty)
    (Int.natCast_inj.mp length) empty
  refine ⟨_,?_,by rw [shape]; exact given,by rw [shape]⟩
  have least := Fill.given_ge configured n (l := Fill.start configured) pairs encodable (Nat.le_refl 0)
  have start : (Fill.start configured).written = 0 := rfl
  omega

end Eggroll.BinBatch

namespace Eggroll.Table
open Library Library.Protobuf Format Store Shuffle BinBatch MetaModel
open SubmitUtils (Waited _futures_wait returns_perm)

section
variable {Obj : Type} (ctx : Context Obj)

abbrev Stream := List (Option Bytes) × Ending

/-- `gather`: the partitions one after the other. A generator that raises fails the call that
reads its stream. -/
def gather (fuel : Nat) : List Stream → List Pair × Ending
  | [] => ([],.returned)
  | (batches,sent) :: rest =>
    match bin_batch_to_pair fuel batches with
    | (pairs,.returned) =>
      match sent with
      | .returned => let later := gather fuel rest; (pairs ++ later.1,later.2)
      | ending => (pairs,ending)
    | (pairs,ending) => (pairs,ending)

/-- `GetAll.submit`; -1 is sent for no limit. -/
def get_all_pairs (fuel : Nat) (t : RollPair) (limit : Option Int) : List Pair × Ending :=
  gather fuel ((List.range t.num_partitions).map fun i =>
    GetAll.run ctx.config.sendbuf_size (t.partition i).toList (limit.getD (-1)))

/-- `get_all`, with all that its generator yields. -/
def get_all (fuel : Nat) (t : RollPair) (limit : Option Int) : List (Obj × Obj) × Ending :=
  let (pairs,ending) := get_all_pairs ctx fuel t limit
  (_serdes_wrapped_generator ctx.serdes pairs,ending)

/-- `Take.submit`: the loop stops behind `num` items and does not ask for another one. -/
def take_pairs (fuel : Nat) (t : RollPair) (num : Int) : List Pair × Ending :=
  let num := if num ≤ 0 then 1 else num
  let (pairs,ending) := get_all_pairs ctx fuel t (some num)
  (pairs.take num.toNat,if num ≤ pairs.length then .returned else ending)

/-- How `take` of the wrapper ends without an answer: its default options have no `get`, and for
keys only it passes an argument that `RollPair.take` does not have. -/
inductive TakeError
  | attributeError
  | typeError
  | ended (ending : Ending)
deriving Repr, DecidableEq

/-- `take`; the options are none or say whether `keys_only` is set. -/
def take (fuel : Nat) (t : RollPair) (n : Int) : Option Bool → Except TakeError (List (Obj × Obj))
  | none => .error .attributeError
  | some true => .error .typeError
  | some false =>
    match take_pairs ctx fuel t n with
    | (pairs,.returned) => .ok (_serdes_wrapped_generator ctx.serdes pairs)
    | (_,ending) => .error (.ended ending)

/-- `first`. -/
def first (fuel : Nat) (t : RollPair) (options : Option Bool) : Except TakeError (Option (Obj × Obj)) :=
  (take ctx fuel t 1 options).map List.head?

/-- What the tasks of `count` answer. -/
def counts (t : RollPair) : List (Except Raised CountResponse) :=
  (List.range t.num_partitions).map fun i =>
    (CountResponse.to_proto ⟨(t.partition i).size⟩).map CountResponse.from_proto

def count (t : RollPair) (w : Waited (counts t)) : Except Raised Int := do
  let results ← _futures_wait w
  pure (results.map CountResponse.value).sum

def _lifted_reduce_to_serdes (reduce_op : Obj → Obj → Obj) (x y : Bytes) : Bytes :=
  ctx.serdes.serialize (reduce_op (ctx.serdes.deserialize x) (ctx.serdes.deserialize y))

/-- The partitions as the tasks of `reduce` see them. -/
def partitions (t : RollPair) (small : t.num_partitions ≤ 2147483648) : List Reduce.Partition :=
  (List.finRange t.num_partitions).map fun i =>
    ⟨i.val,by unfold InInt32; omega,(t.partition i.val).toList.map Prod.snd⟩

def reduce (op : Obj → Obj → Obj) (t : RollPair) (small : t.num_partitions ≤ 2147483648)
    (w : Waited (Reduce.responses (_lifted_reduce_to_serdes ctx op) (partitions t small))) : Except Raised (Option Obj) :=
  (Reduce.reduce (_lifted_reduce_to_serdes ctx op) w).map (Option.map ctx.serdes.deserialize)

end

/-- The bounds of the formats, and no value without a byte, as `pickle` makes none. -/
structure Sendable (t : RollPair) : Prop where
  encodable : ∀ pair ∈ allPairs t, Encodable pair
  values : ∀ pair ∈ allPairs t, pair.2 ≠ []
  partitions : t.num_partitions ≤ 2147483648
  entries : (allPairs t).length < 9223372036854775808

def Gives (stream : Stream) (pairs : List Pair) : Prop := DecodesTo stream.1 pairs ∧ stream.2 = .returned

private theorem gather_gives {indices : List Nat} {stream : Nat → Stream} {pairs : Nat → List Pair}
    (gives : ∀ i ∈ indices, Gives (stream i) (pairs i)) {fuel : Nat}
    (enough : (indices.flatMap pairs).length < fuel) :
    gather fuel (indices.map stream) = (indices.flatMap pairs,.returned) := by
  induction indices with
  | nil => rfl
  | cons i rest ih =>
    rw [List.flatMap_cons,List.length_append] at enough
    obtain ⟨decodes,sent⟩ := gives i List.mem_cons_self
    have later := ih (fun j member => gives j (List.mem_cons_of_mem _ member)) (by omega)
    rcases here : stream i with ⟨batches,ending⟩
    rw [here] at decodes sent
    simp only at decodes sent
    subst sent
    rw [List.map_cons,here,gather,decodes fuel (by omega)]
    simp only [later,List.flatMap_cons]

private theorem take_flatMap_cut {α : Type} {indices : List Nat} {items : Nat → List α} {cut : Nat → Nat} {n : Nat}
    (late : ∀ i ∈ indices, min n (items i).length ≤ cut i) :
    (indices.flatMap fun i => (items i).take (cut i)).take n = (indices.flatMap items).take n := by
  induction indices generalizing n with
  | nil => rfl
  | cons i rest ih =>
    have here := late i List.mem_cons_self
    rw [List.flatMap_cons,List.flatMap_cons,List.take_append,List.take_append]
    rcases Nat.lt_or_ge n (items i).length with inside | behind
    · have cut_ : min n (cut i) = n := by omega
      rw [List.take_take,cut_,List.length_take,Nat.sub_eq_zero_of_le (by omega),Nat.sub_eq_zero_of_le (by omega),
        List.take_zero,List.take_zero]
    · rw [List.take_of_length_le (i := cut i) (by omega)]
      congr 1
      exact ih fun j member => by
        have later := late j (List.mem_cons_of_mem _ member)
        omega

section
variable {Obj : Type} {ctx : Context Obj} {t : RollPair}

/-- The entries of a table, in the order of the partitions and of the keys in each. -/
def entries (ctx : Context Obj) (t : RollPair) : List (Obj × Obj) := (List.range t.num_partitions).flatMap (part ctx t)

private theorem entries_eq (ctx : Context Obj) (t : RollPair) : _serdes_wrapped_generator ctx.serdes (allPairs t) = entries ctx t := by
  rw [_serdes_wrapped_generator,allPairs,List.map_flatMap]
  rfl

private theorem entries_length (ctx : Context Obj) (t : RollPair) : (entries ctx t).length = (allPairs t).length := by
  rw [← entries_eq,_serdes_wrapped_generator,List.length_map]

private theorem partition_encodable (sendable : Sendable t) {i : Nat} (inside : i ∈ List.range t.num_partitions) :
    ∀ pair ∈ (t.partition i).toList, Encodable pair :=
  fun pair member => sendable.encodable pair (List.mem_flatMap.mpr ⟨i,inside,member⟩)

private theorem get_all_entries (sendable : Sendable t) (room : 16 ≤ ctx.config.sendbuf_size) {fuel : Nat}
    (enough : (allPairs t).length < fuel) : get_all ctx fuel t none = (entries ctx t,.returned) := by
  have all : get_all_pairs ctx fuel t none = (allPairs t,.returned) :=
    gather_gives (fun i inside => run_unlimited _ room _ (partition_encodable sendable inside)) enough
  rw [get_all,all]
  exact congrArg (·,Ending.returned) (entries_eq ctx t)

private theorem take_entries (sendable : Sendable t) (room : 16 ≤ ctx.config.sendbuf_size) {fuel : Nat}
    (enough : (allPairs t).length < fuel) {n : Int} (positive : 0 < n) :
    take ctx fuel t n (some false) = .ok ((entries ctx t).take n.toNat) := by
  obtain ⟨size,same⟩ := Int.eq_ofNat_of_zero_le (by omega : 0 ≤ ctx.config.sendbuf_size)
  obtain ⟨n,rfl⟩ := Int.eq_ofNat_of_zero_le (Int.le_of_lt positive)
  have each (i : Nat) : ∃ cut, i ∈ List.range t.num_partitions → min n (t.partition i).toList.length ≤ cut ∧
      Gives (GetAll.run ctx.config.sendbuf_size (t.partition i).toList n) ((t.partition i).toList.take cut) := by
    by_cases inside : i ∈ List.range t.num_partitions
    · obtain ⟨cut,late,gives⟩ := run_limited size (by omega) n _ (partition_encodable sendable inside)
      rw [same]
      exact ⟨cut,fun _ => ⟨late,gives⟩⟩
    · exact ⟨0,fun there => absurd there inside⟩
  choose cut spec using each
  have fewer : ((List.range t.num_partitions).flatMap fun i => (t.partition i).toList.take (cut i)).length ≤
      (allPairs t).length :=
    (List.Sublist.flatMap_right _ fun i _ => List.take_sublist (cut i) (t.partition i).toList).length_le
  have all : get_all_pairs ctx fuel t (some n) =
      ((List.range t.num_partitions).flatMap fun i => (t.partition i).toList.take (cut i),.returned) :=
    gather_gives (fun i inside => (spec i inside).2) (by omega)
  have taken : take_pairs ctx fuel t n = ((allPairs t).take n,.returned) := by
    simp only [take_pairs,if_neg (Int.not_le.mpr positive),all,ite_self,Int.toNat_natCast]
    exact congrArg (·,Ending.returned) (take_flatMap_cut fun i inside => (spec i inside).1)
  simp only [take,taken,Int.toNat_natCast,_serdes_wrapped_generator,List.map_take]
  exact congrArg (fun items => Except.ok (List.take n items)) (entries_eq ctx t)

private theorem partition_sublist {i : Nat} (inside : i ∈ List.range t.num_partitions) :
    (t.partition i).toList.Sublist (allPairs t) := by
  have one := (List.singleton_sublist.mpr inside).flatMap fun i => (t.partition i).toList
  rwa [List.flatMap_singleton] at one

private theorem count_entries (sendable : Sendable t) (w : Waited (counts t)) : count t w = .ok (entries ctx t).length := by
  have size (i : Nat) : (t.partition i).toList.length = (t.partition i).size := Std.ExtTreeMap.length_toList
  have answered : counts t = ((List.range t.num_partitions).map fun i =>
      (⟨(t.partition i).size⟩ : CountResponse)).map .ok := by
    rw [counts,List.map_map]
    refine List.map_congr_left fun i inside => ?_
    have small := (partition_sublist inside).length_le
    have entries := sendable.entries
    have fits : InInt64 (t.partition i).size := by
      rw [size] at small
      unfold InInt64
      omega
    obtain ⟨_,message,_,wrote,restored⟩ := (CountResponse.conveys ⟨(t.partition i).size⟩).wrote fits
    rw [wrote]
    exact congrArg Except.ok restored
  obtain ⟨results,collected,perm⟩ := returns_perm _ w answered
  rw [count,collected]
  refine congrArg Except.ok ((perm.map CountResponse.value).sum_eq.trans ?_)
  rw [List.map_map,entries_length,allPairs,List.length_flatMap,Nat.cast_list_sum,List.map_map]
  exact congrArg List.sum (List.map_congr_left fun i _ => congrArg Nat.cast (size i).symm)

private theorem lifted_reduce (laws : Laws ctx.serdes) (op : Obj → Obj → Obj) (values : List Bytes) :
    (Library.reduce (_lifted_reduce_to_serdes ctx op) values).map ctx.serdes.deserialize =
      Library.reduce op (values.map ctx.serdes.deserialize) := by
  cases values with
  | nil => rfl
  | cons v rest =>
    simp only [List.map_cons,Library.reduce,Option.map_some,Option.some.injEq]
    induction rest generalizing v with
    | nil => rfl
    | cons w rest ih =>
      have first := ih (_lifted_reduce_to_serdes ctx op v w)
      rw [List.foldl_cons,first,List.map_cons,List.foldl_cons,_lifted_reduce_to_serdes,laws.roundtrip]

private theorem lifted_associative (laws : Laws ctx.serdes) (op : Obj → Obj → Obj) [Std.Associative op] :
    Std.Associative (_lifted_reduce_to_serdes ctx op) :=
  ⟨fun x y z => by simp only [_lifted_reduce_to_serdes,laws.roundtrip,Std.Associative.assoc]⟩

private theorem lifted_commutative (op : Obj → Obj → Obj) [Std.Commutative op] :
    Std.Commutative (_lifted_reduce_to_serdes ctx op) :=
  ⟨fun _ _ => congrArg ctx.serdes.serialize (Std.Commutative.comm _ _)⟩

private theorem fold_nonempty (laws : Laws ctx.serdes) (op : Obj → Obj → Obj) {values : List Bytes}
    (some_ : ∀ v ∈ values, v ≠ []) : Library.reduce (_lifted_reduce_to_serdes ctx op) values ≠ some [] := by
  intro folded
  rcases List.eq_nil_or_concat values with rfl | ⟨before,v,rfl⟩
  · cases folded
  · cases before with
    | nil =>
      have same : v = [] := Option.some.inj folded
      exact some_ v (by simp) same
    | cons w rest =>
      rw [List.concat_eq_append,List.cons_append,Library.reduce,List.foldl_append] at folded
      exact laws.nonempty _ (Option.some.inj folded)

private theorem reduce_entries (laws : Laws ctx.serdes) (sendable : Sendable t) (op : Obj → Obj → Obj) [Std.Associative op]
    [Std.Commutative op]
    (w : Waited (Reduce.responses (_lifted_reduce_to_serdes ctx op) (partitions t sendable.partitions))) :
    reduce ctx op t sendable.partitions w = .ok (Library.reduce op ((entries ctx t).map Prod.snd)) := by
  have := lifted_associative laws op
  have : Std.Commutative (_lifted_reduce_to_serdes ctx op) := lifted_commutative op
  have values : (partitions t sendable.partitions).flatMap Reduce.Partition.values = (allPairs t).map Prod.snd := by
    rw [partitions,List.flatMap_map,allPairs,List.map_flatMap,← List.map_coe_finRange_eq_range,List.flatMap_map]
  have none_vanishes : (partitions t sendable.partitions).filter
      (fun p => !p.vanishes (_lifted_reduce_to_serdes ctx op)) = partitions t sendable.partitions := by
    rw [List.filter_eq_self]
    intro p member
    have some_ : ∀ v ∈ p.values, v ≠ [] := by
      intro v listed
      have all : v ∈ (allPairs t).map Prod.snd := values ▸ List.mem_flatMap.mpr ⟨p,member,listed⟩
      obtain ⟨pair,stored,rfl⟩ := List.mem_map.mp all
      exact sendable.values pair stored
    simpa [Reduce.Partition.vanishes] using fold_nonempty laws op some_
  rw [reduce,Reduce.reduce_eq,none_vanishes,values]
  refine congrArg Except.ok ((lifted_reduce laws op _).trans ?_)
  rw [← entries_eq,_serdes_wrapped_generator,List.map_map,List.map_map]
  rfl

/-- The table when `put_all` returns: the scatter loop is over and the store tasks have answered. -/
def put_all_returns (ctx : Context Obj) (t : RollPair) (items : List (Obj × Obj)) (schedule : List Shuffle.Label) :
    Option RollPair :=
  let job := putAllJob ctx t (bytesOf ctx items)
  (job.system.exec job.initial schedule).bind fun s =>
    if job.Finished s then some ⟨t.num_partitions,fun j => (s.sink j).db⟩ else none

/-- `parallelize`: a new store and a `put_all` into it. -/
def parallelize (ctx : Context Obj) (total_partitions : Nat) (data : List (Obj × Obj))
    (schedule : List Shuffle.Label) : Option RollPair :=
  if 0 < total_partitions then put_all_returns ctx ⟨total_partitions,fun _ => ∅⟩ data schedule else none

variable [DecidableEq Obj]

private theorem put_all_returns_get (laws : Laws ctx.serdes) (kept : Kept ctx t) {items : List (Obj × Obj)}
    {schedule : List Shuffle.Label} {changed : RollPair} (returned : put_all_returns ctx t items schedule = some changed) :
    Kept ctx changed ∧ ∀ k, get ctx changed k = (valuesOf k items).getLast?.or (get ctx t k) := by
  simp only [put_all_returns,Option.bind_eq_some_iff,Option.ite_none_right_eq_some,Option.some.injEq] at returned
  obtain ⟨s,run,finished,rfl⟩ := returned
  have reached : (putAllJob ctx t (bytesOf ctx items)).system.Reachable s := ⟨_,schedule,rfl,run⟩
  have done : put_all ctx t items schedule = some ⟨t.num_partitions,fun j => (s.sink j).db⟩ :=
    congrArg (Option.map fun s : State => (⟨t.num_partitions,fun j => (s.sink j).db⟩ : RollPair)) run
  refine ⟨(put_all_get laws kept done).1,fun k => ?_⟩
  obtain ⟨first,early,values,value⟩ := put_all_values laws kept reached k
  have nonempty : KeysNonempty (putAllJob ctx t (bytesOf ctx items)) := by
    intro p _ pair member
    obtain ⟨item,_,rfl⟩ := List.mem_map.mp member
    exact laws.nonempty item.1
  have arrived := (reachable_invariant nonempty reached).arrived finished (kept.toPlaced.home_lt k)
    (ctx.serdes.serialize k)
  have mapped : (putAllJob ctx t (bytesOf ctx items)).mapped = bytesOf ctx items := List.append_nil _
  have whole := (arrived.trans (.of_eq (if_pos rfl))).length_eq
  rw [values,mapped,valuesOf_bytesOf laws,List.length_map,List.length_map] at whole
  rw [value,early.eq_of_length whole]

private theorem parallelize_get (laws : Laws ctx.serdes) {n : Nat} {data : List (Obj × Obj)} {schedule : List Shuffle.Label}
    (made : parallelize ctx n data schedule = some t) :
    Kept ctx t ∧ ∀ k, get ctx t k = (valuesOf k data).getLast? := by
  simp only [parallelize,Option.ite_none_right_eq_some] at made
  obtain ⟨positive,made⟩ := made
  have empty : Kept ctx ⟨n,fun _ => ∅⟩ :=
    ⟨⟨positive,fun i _ k inside => absurd inside Std.ExtTreeMap.not_mem_empty,
      fun i _ k inside => absurd inside Std.ExtTreeMap.not_mem_empty⟩,
      fun i _ k inside => absurd inside Std.ExtTreeMap.not_mem_empty⟩
  obtain ⟨kept,values⟩ := put_all_returns_get laws empty made
  refine ⟨kept,fun k => (values k).trans ?_⟩
  have nothing : get ctx ⟨n,fun _ => ∅⟩ k = none := by simp [get]
  rw [nothing,Option.or_none]

omit [DecidableEq Obj] in
private theorem Kept.entries_dealt (laws : Laws ctx.serdes) (kept : Kept ctx t) :
    ((entries ctx t).map Prod.fst).Nodup ∧ ∀ k v, (k,v) ∈ entries ctx t ↔ get ctx t k = some v :=
  ⟨(kept.toPlaced.dealt laws).distinct,(kept.toPlaced.dealt laws).mem⟩

/-- What every query answers for a table whose entries are `items`. -/
structure Answers (ctx : Context Obj) (t : RollPair) (sendable : Sendable t) (items : List (Obj × Obj)) : Prop where
  distinct : (items.map Prod.fst).Nodup
  mem : ∀ k v, (k,v) ∈ items ↔ get ctx t k = some v
  get_all : ∀ fuel, items.length < fuel → get_all ctx fuel t none = (items,.returned)
  take : ∀ fuel, items.length < fuel → ∀ n > 0, take ctx fuel t n (some false) = .ok (items.take n.toNat)
  first : ∀ fuel, items.length < fuel → first ctx fuel t (some false) = .ok items.head?
  count : ∀ w, count t w = .ok items.length
  reduce : ∀ (op : Obj → Obj → Obj) [Std.Associative op] [Std.Commutative op] w,
    reduce ctx op t sendable.partitions w = .ok (Library.reduce op (items.map Prod.snd))

omit [DecidableEq Obj] in
theorem Kept.answers (laws : Laws ctx.serdes) (kept : Kept ctx t) (sendable : Sendable t)
    (room : 16 ≤ ctx.config.sendbuf_size) : Answers ctx t sendable (entries ctx t) where
  distinct := (kept.entries_dealt laws).1
  mem := (kept.entries_dealt laws).2
  get_all fuel enough := get_all_entries sendable room (entries_length ctx t ▸ enough)
  take fuel enough n positive := take_entries sendable room (entries_length ctx t ▸ enough) positive
  first fuel enough := by
    rw [first,take_entries sendable room (entries_length ctx t ▸ enough) Int.one_pos]
    cases entries ctx t <;> rfl
  count w := count_entries sendable w
  reduce op _ _ w := reduce_entries laws sendable op w

/-- What is put into the cluster by `parallelize` comes out of `get_all`: each of its keys once,
with the last of its values, whatever the number of partitions and the schedule of the shuffle. -/
theorem parallelize_get_all (laws : Laws ctx.serdes) (room : 16 ≤ ctx.config.sendbuf_size) {n : Nat}
    {data : List (Obj × Obj)} {schedule : List Shuffle.Label} (made : parallelize ctx n data schedule = some t)
    (sendable : Sendable t) : ∃ items, (items.map Prod.fst).Nodup ∧
      (∀ k v, (k,v) ∈ items ↔ (valuesOf k data).getLast? = some v) ∧
      ∀ fuel, items.length < fuel → get_all ctx fuel t none = (items,.returned) := by
  obtain ⟨kept,values⟩ := parallelize_get laws made
  have answers := kept.answers laws sendable room
  exact ⟨_,answers.distinct,fun k v => by rw [answers.mem,values],answers.get_all⟩

end

instance (t : RollPair) : Decidable (Sendable t) :=
  decidable_of_iff ((∀ pair ∈ allPairs t, Encodable pair) ∧ (∀ pair ∈ allPairs t, pair.2 ≠ []) ∧
      t.num_partitions ≤ 2147483648 ∧ (allPairs t).length < 9223372036854775808)
    ⟨fun ⟨encodable,values,partitions,entries⟩ => ⟨encodable,values,partitions,entries⟩,
      fun sendable => ⟨sendable.encodable,sendable.values,sendable.partitions,sendable.entries⟩⟩

/-- Four pairs into two partitions, one task after the other. -/
def fourPairs : List Shuffle.Label :=
  let turns : List (Nat × Shuffle.Label) := [(1,.store 0),(1,.store 1),(8,.map 0),(24,.scatter 0),(10,.encode 0 0),
    (12,.encode 0 1),(4,.serve 0 0),(6,.serve 0 1),(9,.store 0),(16,.store 1)]
  turns.flatMap fun (n,a) => List.replicate n a

theorem parallelize_get_all_four : ∃ t, parallelize smallBuffers 2 [(0,7),(1,8),(0,9),(2,4)] fourPairs = some t ∧
    ∃ items, (∀ k v, (k,v) ∈ items ↔ (valuesOf k [(0,7),(1,8),(0,9),(2,4)]).getLast? = some v) ∧
      ∀ fuel, items.length < fuel → get_all smallBuffers fuel t none = (items,.returned) := by
  have ends : (parallelize smallBuffers 2 [(0,7),(1,8),(0,9),(2,4)] fourPairs).any
      (fun t => decide (Sendable t)) = true := by
    decide +kernel
  obtain ⟨t,made,facts⟩ := (Option.any_eq_true _ _).mp ends
  have laws : Laws smallBuffers.serdes := smallInts_laws
  obtain ⟨items,_,mem,yields⟩ := parallelize_get_all laws (by decide) made (decide_eq_true_iff.mp facts)
  exact ⟨t,made,items,mem,yields⟩

end Eggroll.Table
