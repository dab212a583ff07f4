import Eggroll.ShuffleConservation

/-! The table operations of `WrappedRp` (`_wrap_rollpair.py`) over partitioned stores.
A label of the system resolves what the code leaves open: the functions the caller
passes, the draws of `sample`, and the schedule of each shuffle. -/
namespace Eggroll.Table
open Library Format Store Shuffle

/-- The Python objects of a table as the code handles them: `Serdes`, the test for `None`
and the integers that `enumerate` gives. -/
structure Serdes (Obj : Type) where
  serialize : Obj → Bytes
  deserialize : Bytes → Obj
  isNone : Obj → Bool
  int : Nat → Obj

/-- `mmh3.hash(key) % total_partitions`. -/
def mmh3_partitioner (hash : Bytes → Int) (key : Bytes) (total_partitions : Nat) : Nat :=
  (hash key % total_partitions).toNat

/-- A store of the cluster: its partitions, each with its own LMDB. -/
structure RollPair where
  num_partitions : Nat
  partition : Nat → Db

section
variable {Obj : Type} (serdes : Serdes Obj)

def _serdes_wrapped_generator (iter : List Pair) : List (Obj × Obj) :=
  iter.map fun (k,v) => (serdes.deserialize k,serdes.deserialize v)

def _lifted_map_to_io_serdes (f : Nat → List (Obj × Obj) → List (Obj × Obj)) (index : Nat)
    (iter : List Pair) : List Pair :=
  (f index (_serdes_wrapped_generator serdes iter)).map fun (k,v) => (serdes.serialize k,serdes.serialize v)

def _lifted_mpwi_reduce_to_serdes (f : Option (Obj → Obj → Obj)) : Option (Bytes → Bytes → Bytes) :=
  f.map fun op x y => serdes.serialize (op (serdes.deserialize x) (serdes.deserialize y))

def _lifted_map_values_to_mpwi (map_value_op : Obj → Obj) (_index : Nat) (iter : List (Obj × Obj)) :
    List (Obj × Obj) :=
  iter.map fun (k,v) => (k,map_value_op v)

def _lifted_map_to_mpwi (map_op : Obj → Obj → Obj × Obj) (_index : Nat) (iter : List (Obj × Obj)) :
    List (Obj × Obj) :=
  iter.map fun (k,v) => map_op k v

def _lifted_flat_map_to_mpwi (flat_map_op : Obj → Obj → List (Obj × Obj)) (_index : Nat)
    (iter : List (Obj × Obj)) : List (Obj × Obj) :=
  iter.flatMap fun (k,v) => flat_map_op k v

def _lifted_map_partitions_to_mpwi (map_partition_op : List (Obj × Obj) → List (Obj × Obj))
    (_index : Nat) (iter : List (Obj × Obj)) : List (Obj × Obj) :=
  map_partition_op iter

/-- The operator returns how many pairs it took from its generator and its value; the value
goes under the key taken last. -/
def _lifted_apply_partitions_to_mpwi (apply_partition_op : List (Obj × Obj) → Nat × Obj)
    (_index : Nat) (iter : List (Obj × Obj)) : List (Obj × Obj) :=
  match (iter.take (apply_partition_op iter).1).getLast? with
  | none => []
  | some (k,_) => if serdes.isNone k then [] else [(k,(apply_partition_op iter).2)]

def _lifted_filter (func : Obj → Obj → Bool) (_index : Nat) (iter : List (Obj × Obj)) :
    List (Obj × Obj) :=
  iter.filter fun (k,v) => func k v

/-- `draws` are the outcomes of `random_state.random() < fraction`. -/
def _lifted_sample_to_mpwi (draws : Nat → Nat → Bool) (index : Nat) (iter : List (Obj × Obj)) :
    List (Obj × Obj) :=
  (iter.zipIdx.filter fun item => draws index item.2).map Prod.fst

end

section
variable {A B C : Type}

def _merge_intersecting_keys (merge_op : A → B → C) :
    List (Bytes × A) → List (Bytes × B) → List (Bytes × C)
  | [], _ => []
  | _ :: _, [] => []
  | (key1,value1) :: iter1, (key2,value2) :: iter2 =>
    match compare key1 key2 with
    | .eq => (key1,merge_op value1 value2) :: _merge_intersecting_keys merge_op iter1 iter2
    | .lt => _merge_intersecting_keys merge_op iter1 ((key2,value2) :: iter2)
    | .gt => _merge_intersecting_keys merge_op ((key1,value1) :: iter1) iter2
termination_by iter1 iter2 => iter1.length + iter2.length

def _merge_union_keys (merge_op : A → A → A) :
    List (Bytes × A) → List (Bytes × A) → List (Bytes × A)
  | [], iter2 => iter2
  | item1 :: iter1, [] => item1 :: iter1
  | (key1,value1) :: iter1, (key2,value2) :: iter2 =>
    match compare key1 key2 with
    | .eq => (key1,merge_op value1 value2) :: _merge_union_keys merge_op iter1 iter2
    | .lt => (key1,value1) :: _merge_union_keys merge_op iter1 ((key2,value2) :: iter2)
    | .gt => (key2,value2) :: _merge_union_keys merge_op ((key1,value1) :: iter1) iter2
termination_by iter1 iter2 => iter1.length + iter2.length

def _subtract_by_key : List (Bytes × A) → List (Bytes × B) → List (Bytes × A)
  | [], _ => []
  | item1 :: iter1, [] => item1 :: iter1
  | (key1,value1) :: iter1, (key2,value2) :: iter2 =>
    match compare key1 key2 with
    | .eq => _subtract_by_key iter1 iter2
    | .lt => (key1,value1) :: _subtract_by_key iter1 ((key2,value2) :: iter2)
    | .gt => _subtract_by_key ((key1,value1) :: iter1) iter2
termination_by iter1 iter2 => iter1.length + iter2.length

end

/-- The output of a task without shuffle: its pairs put one by one into a new store. -/
def written (accepts : Bytes → Bool) (pairs : List Pair) : Except StoreError Db :=
  pairs.foldlM (fun db pair => put accepts db pair.1 pair.2) ∅

/-- A table of `n` new stores, when every task succeeds. -/
def gathered (n : Nat) (partition : Nat → Except StoreError Db) : Option RollPair :=
  if (List.range n).all (fun i => (partition i).isOk) then
    some ⟨n,fun i => (partition i).toOption.getD ∅⟩
  else none

/-- `_run_non_shuffle` on every partition. -/
def run_non_shuffle (accepts : Bytes → Bool) (map_op : Nat → List Pair → List Pair) (t : RollPair) :
    Option RollPair :=
  gathered t.num_partitions fun i => written accepts (map_op i (t.partition i).toList)

/-- `_run_shuffle` on every partition, under one schedule of its steps. -/
def run_shuffle (job : Job) (schedule : List Shuffle.Label) : Option RollPair :=
  (job.system.exec job.initial schedule).bind fun s =>
    if job.Finished s then some ⟨job.outputs,fun j => (s.sink j).db⟩ else none

structure Context (Obj : Type) where
  serdes : Serdes Obj
  hash : Bytes → Int
  config : Config

section
variable {Obj : Type} (ctx : Context Obj)

def Context.partitioner : Bytes → Nat → Nat := mmh3_partitioner ctx.hash

/-- `map_reduce_partitions_with_index` on the byte level. -/
def map_reduce_partitions_with_index (t : RollPair) (map_op : Nat → List Pair → List Pair)
    (reduce_op : Option (Bytes → Bytes → Bytes)) (shuffle : Bool) (output_num_partitions : Nat)
    (schedule : List Shuffle.Label) : Option RollPair :=
  if shuffle then
    run_shuffle (mapReduce ctx.config t.num_partitions output_num_partitions t.partition
      (fun i iter => .iterable (map_op i iter)) ctx.partitioner reduce_op) schedule
  else if t.num_partitions = output_num_partitions then
    run_non_shuffle ctx.config.accepts map_op t
  else none

/-- `_map_reduce_partitions_with_index` of the wrapper. -/
def _map_reduce_partitions_with_index (t : RollPair) (f : Nat → List (Obj × Obj) → List (Obj × Obj))
    (reduce_op : Option (Obj → Obj → Obj)) (shuffle : Bool) (schedule : List Shuffle.Label) :
    Option RollPair :=
  if !shuffle && reduce_op.isSome then none
  else
    map_reduce_partitions_with_index ctx t (_lifted_map_to_io_serdes ctx.serdes f)
      (_lifted_mpwi_reduce_to_serdes ctx.serdes reduce_op) shuffle t.num_partitions schedule

/-- `repartition` to another number of partitions. -/
def repartition (t : RollPair) (num_partitions : Nat) (schedule : List Shuffle.Label) : Option RollPair :=
  map_reduce_partitions_with_index ctx t (fun _ iter => iter) none true num_partitions schedule

/-- The stores `repartition_with` hands on, and the one it made, if any. -/
def repartition_with (t other : RollPair) (schedule : List Shuffle.Label) :
    Option (RollPair × RollPair × List RollPair) :=
  if t.num_partitions = other.num_partitions then some (t,other,[])
  else if other.num_partitions < t.num_partitions then
    (repartition ctx other t.num_partitions schedule).map fun made => (t,made,[made])
  else (repartition ctx t other.num_partitions schedule).map fun made => (made,other,[made])

/-- `_lifted_sorted_binary_map_partitions_with_index_to_serdes`: keys stay bytes. -/
def lifted_sorted_binary (f : List (Bytes × Obj) → List (Bytes × Obj) → List (Bytes × Obj))
    (left right : List Pair) : List Pair :=
  let read := fun pair : Pair => (pair.1,ctx.serdes.deserialize pair.2)
  (f (left.map read) (right.map read)).map fun (k,v) => (k,ctx.serdes.serialize v)

/-- `binarySortedMapPartitionsWithIndex`: the new stores, the result last. -/
def binarySortedMapPartitionsWithIndex (t other : RollPair)
    (f : List (Bytes × Obj) → List (Bytes × Obj) → List (Bytes × Obj))
    (schedule : List Shuffle.Label) : Option (List RollPair) :=
  (repartition_with ctx t other schedule).bind fun (first,second,made) =>
    (gathered first.num_partitions fun i =>
      written ctx.config.accepts
        (lifted_sorted_binary ctx f (first.partition i).toList (second.partition i).toList)).map
      fun result => made ++ [result]

/-- The scatter and store tasks of `put_all` into an existing table. -/
def putAllJob (t : RollPair) (pairs : List Pair) : Job where
  toConfig := ctx.config
  inputs := 1
  outputs := t.num_partitions
  pairs _ := pairs
  entered := false
  partitioner := ctx.partitioner
  reduce_op := none
  stored := t.partition

def get (t : RollPair) (k : Obj) : Option Obj :=
  let key := ctx.serdes.serialize k
  (t.partition (ctx.partitioner key t.num_partitions))[key]?.map ctx.serdes.deserialize

def put (t : RollPair) (k v : Obj) : Option RollPair :=
  let key := ctx.serdes.serialize k
  let i := ctx.partitioner key t.num_partitions
  match Store.put ctx.config.accepts (t.partition i) key (ctx.serdes.serialize v) with
  | .error _ => none
  | .ok db => some { t with partition := Function.update t.partition i db }

/-- `put_all`. Its effect on the table is what the store tasks have stored, also when it
raises on the way. -/
def put_all (t : RollPair) (items : List (Obj × Obj)) (schedule : List Shuffle.Label) : Option RollPair :=
  let job := putAllJob ctx t (items.map fun (k,v) => (ctx.serdes.serialize k,ctx.serdes.serialize v))
  (job.system.exec job.initial schedule).map fun s => ⟨t.num_partitions,fun j => (s.sink j).db⟩

end

/-- An operation on tables named by their positions. -/
inductive Op (Obj : Type)
  | create (total_partitions : Nat)
  | put (t : Nat) (k v : Obj)
  | put_all (t : Nat) (items : List (Obj × Obj)) (schedule : List Shuffle.Label)
  | put_all_values (t : Nat) (items : List Obj) (schedule : List Shuffle.Label)
  | map (t : Nat) (func : Obj → Obj → Obj × Obj)
  | map_values (t : Nat) (func : Obj → Obj)
  | flat_map (t : Nat) (func : Obj → Obj → List (Obj × Obj))
  | filter (t : Nat) (func : Obj → Obj → Bool)
  | sample (t : Nat) (draws : Nat → Nat → Bool)
  | map_partitions (t : Nat) (func : List (Obj × Obj) → List (Obj × Obj))
      (reduce_op : Option (Obj → Obj → Obj)) (shuffle : Bool) (schedule : List Shuffle.Label)
  | collapse_partitions (t : Nat) (func : List (Obj × Obj) → Nat × Obj)
  | repartition (t num_partitions : Nat) (schedule : List Shuffle.Label)
  | join (t other : Nat) (func : Obj → Obj → Obj) (schedule : List Shuffle.Label)
  | union (t other : Nat) (func : Obj → Obj → Obj) (schedule : List Shuffle.Label)
  | subtract_by_key (t other : Nat) (schedule : List Shuffle.Label)

section
variable {Obj : Type} (ctx : Context Obj)

/-- The function an operation on one table runs on each partition, when it is not
followed by a shuffle. -/
def unshuffled : Op Obj → Option (Nat × (Nat → List (Obj × Obj) → List (Obj × Obj)))
  | .map t func => some (t,_lifted_map_to_mpwi func)
  | .map_values t func => some (t,_lifted_map_values_to_mpwi func)
  | .flat_map t func => some (t,_lifted_flat_map_to_mpwi func)
  | .filter t func => some (t,_lifted_filter func)
  | .sample t draws => some (t,_lifted_sample_to_mpwi draws)
  | .map_partitions t func none false _ => some (t,_lifted_map_partitions_to_mpwi func)
  | .collapse_partitions t func => some (t,_lifted_apply_partitions_to_mpwi ctx.serdes func)
  | _ => none

def binary (tables : List RollPair) (t other : Nat)
    (f : List (Bytes × Obj) → List (Bytes × Obj) → List (Bytes × Obj))
    (schedule : List Shuffle.Label) : Option (List RollPair) :=
  match tables[t]?,tables[other]? with
  | some first,some second =>
    (binarySortedMapPartitionsWithIndex ctx first second f schedule).map fun made => tables ++ made
  | _,_ => none

/-- One operation; new stores are appended, `put` and `put_all` change a store in place.
An operation that raises has no step. -/
def step (tables : List RollPair) (op : Op Obj) : Option (List RollPair) :=
  match op with
  | .create total_partitions =>
    if 0 < total_partitions then some (tables ++ [⟨total_partitions,fun _ => ∅⟩]) else none
  | .put t k v =>
    (tables[t]?).bind fun table => (put ctx table k v).map fun changed => tables.set t changed
  | .put_all t items schedule =>
    (tables[t]?).bind fun table =>
      (put_all ctx table items schedule).map fun changed => tables.set t changed
  | .put_all_values t items schedule =>
    (tables[t]?).bind fun table =>
      (put_all ctx table (items.zipIdx.map fun (v,i) => (ctx.serdes.int i,v)) schedule).map
        fun changed => tables.set t changed
  | .map_partitions t func reduce_op true schedule =>
    (tables[t]?).bind fun table =>
      (_map_reduce_partitions_with_index ctx table (_lifted_map_partitions_to_mpwi func) reduce_op true
        schedule).map fun made => tables ++ [made]
  | .repartition t num_partitions schedule =>
    (tables[t]?).bind fun table =>
      if table.num_partitions = num_partitions then some tables
      else if num_partitions = 0 then none
      else (repartition ctx table num_partitions schedule).map fun made => tables ++ [made]
  | .join t other func schedule => binary ctx tables t other (_merge_intersecting_keys func) schedule
  | .union t other func schedule => binary ctx tables t other (_merge_union_keys func) schedule
  | .subtract_by_key t other schedule => binary ctx tables t other _subtract_by_key schedule
  | op =>
    -- the operations with shuffle=False
    (unshuffled ctx op).bind fun (t,f) =>
      (tables[t]?).bind fun table =>
        (_map_reduce_partitions_with_index ctx table f none false []).map fun made => tables ++ [made]

def system : System (List RollPair) (Op Obj) where
  start tables := tables = []
  step := step ctx

end
end Eggroll.Table
