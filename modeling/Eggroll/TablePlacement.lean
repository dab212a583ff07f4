import Eggroll.Table

/-! Where keys are: in a store of `n` partitions each key `k` belongs into partition
`mmh3_partitioner(k, n)`. Shuffles and `put` establish this, `map_values`, `filter`, `sample`,
`collapse_partitions` and the binary operations keep it, and the operations that may
change keys without a shuffle keep it exactly as far as the caller's function does. -/
namespace Eggroll.Table
open Library Format Store Shuffle

section
variable {Obj : Type} {ctx : Context Obj}

/-- What holds of `pickle` where the bytes of an object are pickled again to themselves, as those of
numbers, strings and tuples of them are. A set need not be: its bytes follow the order of its table. -/
structure Laws (serdes : Serdes Obj) : Prop where
  roundtrip : ∀ x, serdes.deserialize (serdes.serialize x) = x
  nonempty : ∀ x, serdes.serialize x ≠ []

def Encoded (serdes : Serdes Obj) (k : Bytes) : Prop := ∃ x, serdes.serialize x = k

structure Placed (ctx : Context Obj) (t : RollPair) : Prop where
  positive : 0 < t.num_partitions
  inPlace : ∀ i < t.num_partitions, ∀ k ∈ t.partition i, ctx.partitioner k t.num_partitions = i
  encoded : ∀ i < t.num_partitions, ∀ k ∈ t.partition i, Encoded ctx.serdes k

theorem partitioner_lt (k : Bytes) {n : Nat} (positive : 0 < n) : ctx.partitioner k n < n := by
  have upper := Int.emod_lt_of_pos (ctx.hash k) (by omega : (0 : Int) < n)
  have lower := Int.emod_nonneg (ctx.hash k) (by omega : (n : Int) ≠ 0)
  rw [Context.partitioner,mmh3_partitioner]
  omega

theorem mem_of_toList {db : Db} {pair : Pair} (member : pair ∈ db.toList) : pair.1 ∈ db := by
  have found : db[pair.1]? = some pair.2 := Std.ExtTreeMap.mem_toList_iff_getElem?_eq_some.mp member
  rw [Std.ExtTreeMap.mem_iff_isSome_getElem?,found]
  rfl

theorem written_mem {accepts : Bytes → Bool} {pairs : List Pair} {db : Db}
    (done : written accepts pairs = .ok db) {k : Bytes} (member : k ∈ db) : ∃ pair ∈ pairs, pair.1 = k := by
  suffices ∀ before : Db, pairs.foldlM (fun db pair => Store.put accepts db pair.1 pair.2) before = .ok db →
      k ∈ before ∨ ∃ pair ∈ pairs, pair.1 = k from
    (this ∅ done).resolve_left Std.ExtTreeMap.not_mem_empty
  clear done
  induction pairs with
  | nil =>
    intro before done
    cases done
    exact .inl member
  | cons pair rest ih =>
    intro before done
    rw [List.foldlM_cons] at done
    cases first : Store.put accepts before pair.1 pair.2 with
    | error e => simp [first,bind,Except.bind] at done
    | ok middle =>
      simp only [first,bind,Except.bind] at done
      obtain inside | ⟨later,inside,same⟩ := ih middle done
      · have stored : store accepts none before pair = .ok middle := first
        exact (store_mem stored inside).elim (fun same => .inr ⟨pair,by simp,same.symm⟩) .inl
      · exact .inr ⟨later,List.mem_cons_of_mem _ inside,same⟩

theorem gathered_spec {n : Nat} {partition : Nat → Except StoreError Db} {t : RollPair}
    (made : gathered n partition = some t) :
    t.num_partitions = n ∧ ∀ i < n, partition i = .ok (t.partition i) := by
  unfold gathered at made
  split at made
  · rename_i succeeded
    cases made
    refine ⟨rfl,fun i inside => ?_⟩
    have good := List.all_eq_true.mp succeeded i (List.mem_range.mpr inside)
    cases result : partition i with
    | error e => simp [result,Except.isOk,Except.toBool] at good
    | ok db => simp [result,Except.toOption]
  · contradiction

/-- The pairs a task of partition `i` may put: their keys are at home there. -/
def AtHome (ctx : Context Obj) (n i : Nat) (k : Bytes) : Prop :=
  ctx.partitioner k n = i ∧ Encoded ctx.serdes k

theorem gathered_placed {n : Nat} {pairs : Nat → List Pair} {t : RollPair} (positive : 0 < n)
    (home : ∀ i < n, ∀ pair ∈ pairs i, AtHome ctx n i pair.1)
    (made : gathered n (fun i => written ctx.config.accepts (pairs i)) = some t) : Placed ctx t := by
  obtain ⟨rfl,results⟩ := gathered_spec made
  have known (i : Nat) (inside : i < t.num_partitions) (k : Bytes) (member : k ∈ t.partition i) :
      AtHome ctx t.num_partitions i k := by
    obtain ⟨pair,listed,rfl⟩ := written_mem (results i inside) member
    exact home i inside pair listed
  exact ⟨positive,fun i inside k member => (known i inside k member).1,
    fun i inside k member => (known i inside k member).2⟩

theorem Placed.atHome {t : RollPair} (placed : Placed ctx t) {i : Nat} (inside : i < t.num_partitions)
    {pair : Pair} (member : pair ∈ (t.partition i).toList) : AtHome ctx t.num_partitions i pair.1 :=
  ⟨placed.inPlace i inside pair.1 (mem_of_toList member),placed.encoded i inside pair.1 (mem_of_toList member)⟩

theorem lifted_encoded (f : Nat → List (Obj × Obj) → List (Obj × Obj)) (i : Nat) (iter : List Pair)
    {pair : Pair} (member : pair ∈ _lifted_map_to_io_serdes ctx.serdes f i iter) :
    Encoded ctx.serdes pair.1 := by
  obtain ⟨⟨k,v⟩,_,rfl⟩ := List.mem_map.mp member
  exact ⟨k,rfl⟩

def KeepsKeys (f : Nat → List (Obj × Obj) → List (Obj × Obj)) : Prop :=
  ∀ i items o, o ∈ f i items → ∃ v, (o.1,v) ∈ items

theorem map_values_keeps (func : Obj → Obj) : KeepsKeys (_lifted_map_values_to_mpwi func) := by
  intro i items o member
  obtain ⟨⟨k,v⟩,inside,rfl⟩ := List.mem_map.mp member
  exact ⟨v,inside⟩

theorem filter_keeps (func : Obj → Obj → Bool) : KeepsKeys (_lifted_filter func) := by
  intro i items o member
  exact ⟨o.2,(List.mem_filter.mp member).1⟩

theorem sample_keeps (draws : Nat → Nat → Bool) :
    KeepsKeys (_lifted_sample_to_mpwi draws : Nat → List (Obj × Obj) → List (Obj × Obj)) := by
  intro i items o member
  obtain ⟨⟨pair,position⟩,inside,rfl⟩ := List.mem_map.mp member
  have listed := List.mem_zipIdx' (List.mem_filter.mp inside).1
  exact ⟨pair.2,listed.2 ▸ List.getElem_mem listed.1⟩

theorem collapse_keeps (func : List (Obj × Obj) → Nat × Obj) :
    KeepsKeys (_lifted_apply_partitions_to_mpwi ctx.serdes func) := by
  intro i items o member
  unfold _lifted_apply_partitions_to_mpwi at member
  split at member
  · contradiction
  · rename_i k v last
    split at member
    · contradiction
    · obtain rfl := List.mem_singleton.mp member
      exact ⟨v,List.mem_of_mem_take (List.mem_of_getLast? last)⟩

private theorem lifted_keeps (laws : Laws ctx.serdes) {f : Nat → List (Obj × Obj) → List (Obj × Obj)}
    (keeps : KeepsKeys f) {i : Nat} {iter : List Pair}
    (encoded : ∀ pair ∈ iter, Encoded ctx.serdes pair.1) {pair : Pair}
    (member : pair ∈ _lifted_map_to_io_serdes ctx.serdes f i iter) : ∃ v, (pair.1,v) ∈ iter := by
  obtain ⟨⟨k,v⟩,emitted,rfl⟩ := List.mem_map.mp member
  obtain ⟨w,read⟩ := keeps i _ _ emitted
  obtain ⟨⟨kb,vb⟩,listed,same⟩ := List.mem_map.mp read
  obtain ⟨x,rfl⟩ := encoded (kb,vb) listed
  simp only [laws.roundtrip,Prod.mk.injEq] at same
  exact ⟨vb,same.1 ▸ listed⟩

private theorem shuffled_atHome (nonempty : ∀ x, ctx.serdes.serialize x ≠ []) {job : Job} (placer : job.partitioner = ctx.partitioner)
    (encoded : ∀ p < job.inputs, ∀ pair ∈ job.pairs p, Encoded ctx.serdes pair.1)
    {s : State} (reached : job.system.Reachable s) {j : Nat} (within : j < job.outputs) {k : Bytes}
    (member : k ∈ (s.sink j).db) : k ∈ job.stored j ∨ AtHome ctx job.outputs j k := by
  have keys : KeysNonempty job := by
    intro p inside pair listed
    obtain ⟨x,same⟩ := encoded p inside pair listed
    exact same ▸ nonempty x
  obtain old | ⟨target,p,inside,v,listed⟩ := (reachable_invariant keys reached).placed within member
  · exact .inl old
  · exact .inr ⟨placer ▸ target,encoded p inside (k,v) listed⟩

private theorem run_shuffle_placed (nonempty : ∀ x, ctx.serdes.serialize x ≠ []) {job : Job} (placer : job.partitioner = ctx.partitioner)
    (encoded : ∀ p < job.inputs, ∀ pair ∈ job.pairs p, Encoded ctx.serdes pair.1)
    (fresh : ∀ j, job.stored j = ∅) (positive : 0 < job.outputs) {schedule : List Shuffle.Label}
    {t : RollPair} (made : run_shuffle job schedule = some t) : Placed ctx t := by
  simp only [run_shuffle,Option.bind_eq_some_iff,Option.ite_none_right_eq_some,Option.some.injEq] at made
  obtain ⟨s,run,_,rfl⟩ := made
  have known (j : Nat) (within : j < job.outputs) (k : Bytes) (member : k ∈ (s.sink j).db) :
      AtHome ctx job.outputs j k := by
    refine (shuffled_atHome nonempty placer encoded ⟨_,schedule,rfl,run⟩ within member).resolve_left ?_
    rw [fresh]
    exact Std.ExtTreeMap.not_mem_empty
  exact ⟨positive,fun j within k member => (known j within k member).1,
    fun j within k member => (known j within k member).2⟩

theorem repartition_placed (nonempty : ∀ x, ctx.serdes.serialize x ≠ []) {t made : RollPair} (placed : Placed ctx t) {n : Nat}
    (positive : 0 < n) {schedule : List Shuffle.Label}
    (done : repartition ctx t n schedule = some made) : Placed ctx made := by
  rw [repartition,map_reduce_partitions_with_index,if_pos rfl] at done
  refine run_shuffle_placed nonempty rfl ?_ (fun _ => rfl) positive done
  intro p inside pair member
  exact (placed.atHome inside member).2

theorem repartition_num {t made : RollPair} {n : Nat} {schedule : List Shuffle.Label}
    (done : repartition ctx t n schedule = some made) : made.num_partitions = n := by
  rw [repartition,map_reduce_partitions_with_index,if_pos rfl] at done
  simp only [run_shuffle,Option.bind_eq_some_iff,Option.ite_none_right_eq_some,Option.some.injEq] at done
  obtain ⟨s,_,_,rfl⟩ := done
  rfl

private theorem put_placed {t changed : RollPair} (placed : Placed ctx t) {k v : Obj}
    (done : put ctx t k v = some changed) : Placed ctx changed := by
  unfold put at done
  simp only at done
  split at done
  · contradiction
  · rename_i db stored
    cases done
    have home : AtHome ctx t.num_partitions
        (ctx.partitioner (ctx.serdes.serialize k) t.num_partitions) (ctx.serdes.serialize k) := ⟨rfl,k,rfl⟩
    have known (i : Nat) (inside : i < t.num_partitions) (key : Bytes)
        (member : key ∈ Function.update t.partition
          (ctx.partitioner (ctx.serdes.serialize k) t.num_partitions) db i) :
        AtHome ctx t.num_partitions i key := by
      rw [Function.update_apply] at member
      split at member
      · rename_i same
        subst same
        have put : store ctx.config.accepts none _ (ctx.serdes.serialize k,ctx.serdes.serialize v) = .ok db :=
          stored
        obtain rfl | old := store_mem put member
        · exact home
        · exact ⟨placed.inPlace _ inside key old,placed.encoded _ inside key old⟩
      · exact ⟨placed.inPlace i inside key member,placed.encoded i inside key member⟩
    exact ⟨placed.positive,fun i inside key member => (known i inside key member).1,
      fun i inside key member => (known i inside key member).2⟩

theorem put_all_placed (nonempty : ∀ x, ctx.serdes.serialize x ≠ []) {t changed : RollPair} (placed : Placed ctx t)
    {items : List (Obj × Obj)} {schedule : List Shuffle.Label}
    (done : put_all ctx t items schedule = some changed) : Placed ctx changed := by
  simp only [put_all,Option.map_eq_some_iff] at done
  obtain ⟨s,run,rfl⟩ := done
  have known (j : Nat) (within : j < t.num_partitions) (k : Bytes) (member : k ∈ (s.sink j).db) :
      AtHome ctx t.num_partitions j k := by
    have encoded : ∀ p < 1, ∀ pair ∈ items.map (fun item => (ctx.serdes.serialize item.1,ctx.serdes.serialize item.2)),
        Encoded ctx.serdes pair.1 := by
      intro p _ pair member
      obtain ⟨item,_,rfl⟩ := List.mem_map.mp member
      exact ⟨item.1,rfl⟩
    have reached : (putAllJob ctx t (items.map fun item =>
        (ctx.serdes.serialize item.1,ctx.serdes.serialize item.2))).system.Reachable s := ⟨_,schedule,rfl,run⟩
    obtain old | home := shuffled_atHome nonempty rfl encoded reached within member
    · exact ⟨placed.inPlace j within k old,placed.encoded j within k old⟩
    · exact home
  exact ⟨placed.positive,fun j within k member => (known j within k member).1,
    fun j within k member => (known j within k member).2⟩

theorem unshuffled_placed {t made : RollPair} (placed : Placed ctx t)
    {f : Nat → List (Obj × Obj) → List (Obj × Obj)}
    (home : ∀ i < t.num_partitions,
      ∀ pair ∈ _lifted_map_to_io_serdes ctx.serdes f i (t.partition i).toList,
        ctx.partitioner pair.1 t.num_partitions = i)
    (done : _map_reduce_partitions_with_index ctx t f none false [] = some made) : Placed ctx made := by
  simp only [_map_reduce_partitions_with_index,map_reduce_partitions_with_index,Option.isSome_none,
    Bool.and_false,Bool.false_eq_true,if_false,if_true] at done
  exact gathered_placed placed.positive
    (fun i inside pair member => ⟨home i inside pair member,lifted_encoded f i _ member⟩) done

theorem keeping_home (laws : Laws ctx.serdes) {t : RollPair} (placed : Placed ctx t)
    {f : Nat → List (Obj × Obj) → List (Obj × Obj)} (keeps : KeepsKeys f) {i : Nat}
    (inside : i < t.num_partitions) {pair : Pair}
    (member : pair ∈ _lifted_map_to_io_serdes ctx.serdes f i (t.partition i).toList) :
    ctx.partitioner pair.1 t.num_partitions = i := by
  obtain ⟨v,listed⟩ := lifted_keeps laws keeps (fun p inner => (placed.atHome inside inner).2) member
  exact (placed.atHome inside listed).1

theorem shuffled_placed (nonempty : ∀ x, ctx.serdes.serialize x ≠ []) {t made : RollPair} (placed : Placed ctx t)
    {f : Nat → List (Obj × Obj) → List (Obj × Obj)} {reduce_op : Option (Obj → Obj → Obj)}
    {schedule : List Shuffle.Label}
    (done : _map_reduce_partitions_with_index ctx t f reduce_op true schedule = some made) :
    Placed ctx made := by
  simp only [_map_reduce_partitions_with_index,map_reduce_partitions_with_index,Bool.not_true,
    Bool.false_and,Bool.false_eq_true,if_false,if_true] at done
  refine run_shuffle_placed nonempty rfl ?_ (fun _ => rfl) placed.positive done
  intro p _ pair member
  exact lifted_encoded f p _ member

def MergesKeys (f : List (Bytes × Obj) → List (Bytes × Obj) → List (Bytes × Obj)) : Prop :=
  ∀ left right o, o ∈ f left right → o.1 ∈ left.map Prod.fst ∨ o.1 ∈ right.map Prod.fst

private theorem intersecting_merges (func : Obj → Obj → Obj) : MergesKeys (_merge_intersecting_keys func) := by
  intro left right
  induction left, right using _merge_intersecting_keys.induct with
  | case1 => simp [_merge_intersecting_keys]
  | case2 => simp [_merge_intersecting_keys]
  | case3 key1 value1 iter1 key2 value2 iter2 equal ih =>
    intro o member
    simp only [_merge_intersecting_keys,equal] at member
    rcases List.mem_cons.mp member with rfl | later
    · exact .inl List.mem_cons_self
    · exact (ih o later).imp (List.mem_cons_of_mem _) (List.mem_cons_of_mem _)
  | case4 key1 value1 iter1 key2 value2 iter2 less ih =>
    intro o member
    simp only [_merge_intersecting_keys,less] at member
    exact (ih o member).imp_left (List.mem_cons_of_mem _)
  | case5 key1 value1 iter1 key2 value2 iter2 greater ih =>
    intro o member
    simp only [_merge_intersecting_keys,greater] at member
    exact (ih o member).imp_right (List.mem_cons_of_mem _)

private theorem union_merges (func : Obj → Obj → Obj) : MergesKeys (_merge_union_keys func) := by
  intro left right
  induction left, right using _merge_union_keys.induct with
  | case1 iter2 =>
    intro o member
    rw [_merge_union_keys] at member
    exact .inr (List.mem_map_of_mem member)
  | case2 item1 iter1 =>
    intro o member
    rw [_merge_union_keys] at member
    exact .inl (List.mem_map_of_mem member)
  | case3 key1 value1 iter1 key2 value2 iter2 equal ih =>
    intro o member
    simp only [_merge_union_keys,equal] at member
    rcases List.mem_cons.mp member with rfl | later
    · exact .inl List.mem_cons_self
    · exact (ih o later).imp (List.mem_cons_of_mem _) (List.mem_cons_of_mem _)
  | case4 key1 value1 iter1 key2 value2 iter2 less ih =>
    intro o member
    simp only [_merge_union_keys,less] at member
    rcases List.mem_cons.mp member with rfl | later
    · exact .inl List.mem_cons_self
    · exact (ih o later).imp_left (List.mem_cons_of_mem _)
  | case5 key1 value1 iter1 key2 value2 iter2 greater ih =>
    intro o member
    simp only [_merge_union_keys,greater] at member
    rcases List.mem_cons.mp member with rfl | later
    · exact .inr List.mem_cons_self
    · exact (ih o later).imp_right (List.mem_cons_of_mem _)

private theorem subtract_merges : MergesKeys (_subtract_by_key (A := Obj) (B := Obj)) := by
  intro left right
  induction left, right using _subtract_by_key.induct with
  | case1 => simp [_subtract_by_key]
  | case2 item1 iter1 =>
    intro o member
    rw [_subtract_by_key] at member
    exact .inl (List.mem_map_of_mem member)
  | case3 key1 value1 iter1 key2 value2 iter2 equal ih =>
    intro o member
    simp only [_subtract_by_key,equal] at member
    exact (ih o member).imp (List.mem_cons_of_mem _) (List.mem_cons_of_mem _)
  | case4 key1 value1 iter1 key2 value2 iter2 less ih =>
    intro o member
    simp only [_subtract_by_key,less] at member
    rcases List.mem_cons.mp member with rfl | later
    · exact .inl List.mem_cons_self
    · exact (ih o later).imp_left (List.mem_cons_of_mem _)
  | case5 key1 value1 iter1 key2 value2 iter2 greater ih =>
    intro o member
    simp only [_subtract_by_key,greater] at member
    exact (ih o member).imp_right (List.mem_cons_of_mem _)

private theorem repartition_with_placed (nonempty : ∀ x, ctx.serdes.serialize x ≠ []) {t other first second : RollPair}
    {made : List RollPair} (placed : Placed ctx t) (placedOther : Placed ctx other)
    {schedule : List Shuffle.Label}
    (done : repartition_with ctx t other schedule = some (first,second,made)) :
    Placed ctx first ∧ Placed ctx second ∧ first.num_partitions = second.num_partitions ∧
      ∀ table ∈ made, Placed ctx table := by
  unfold repartition_with at done
  split at done
  · rename_i same
    cases done
    exact ⟨placed,placedOther,same,fun _ member => by simp at member⟩
  · split at done
    · simp only [Option.map_eq_some_iff,Prod.mk.injEq] at done
      obtain ⟨table,again,rfl,rfl,rfl⟩ := done
      have moved := repartition_placed nonempty placedOther placed.positive again
      exact ⟨placed,moved,(repartition_num again).symm,fun _ member => List.mem_singleton.mp member ▸ moved⟩
    · simp only [Option.map_eq_some_iff,Prod.mk.injEq] at done
      obtain ⟨table,again,rfl,rfl,rfl⟩ := done
      have moved := repartition_placed nonempty placed placedOther.positive again
      exact ⟨moved,placedOther,repartition_num again,fun _ member => List.mem_singleton.mp member ▸ moved⟩

private theorem binary_placed (nonempty : ∀ x, ctx.serdes.serialize x ≠ []) {t other : RollPair} {made : List RollPair}
    (placed : Placed ctx t) (placedOther : Placed ctx other)
    {f : List (Bytes × Obj) → List (Bytes × Obj) → List (Bytes × Obj)} (merges : MergesKeys f)
    {schedule : List Shuffle.Label}
    (done : binarySortedMapPartitionsWithIndex ctx t other f schedule = some made) :
    ∀ table ∈ made, Placed ctx table := by
  simp only [binarySortedMapPartitionsWithIndex,Option.bind_eq_some_iff,Option.map_eq_some_iff,
    Prod.exists] at done
  obtain ⟨first,second,extra,again,result,wrote,rfl⟩ := done
  obtain ⟨placedFirst,placedSecond,equal,placedExtra⟩ := repartition_with_placed nonempty placed placedOther again
  have placedResult : Placed ctx result := by
    refine gathered_placed placedFirst.positive ?_ wrote
    intro i inside pair member
    obtain ⟨⟨k,v⟩,emitted,rfl⟩ := List.mem_map.mp member
    obtain left | right := merges _ _ _ emitted
    · rw [List.map_map] at left
      obtain ⟨source,listed,rfl⟩ := List.mem_map.mp left
      have home := placedFirst.atHome inside listed
      exact home
    · rw [List.map_map] at right
      obtain ⟨source,listed,rfl⟩ := List.mem_map.mp right
      have home := placedSecond.atHome (equal ▸ inside) listed
      rwa [← equal] at home
  intro table member
  rcases List.mem_append.mp member with old | new
  · exact placedExtra table old
  · exact List.mem_singleton.mp new ▸ placedResult

/-- What `f` makes of each partition of a store has keys that the partitioner sends to this partition. -/
def homeOn (ctx : Context Obj) (tables : List RollPair) (t : Nat) (f : Nat → List (Obj × Obj) → List (Obj × Obj)) :
    Bool :=
  (tables[t]?).all fun table =>
    (List.range table.num_partitions).all fun i =>
      (_lifted_map_to_io_serdes ctx.serdes f i (table.partition i).toList).all fun pair =>
        ctx.partitioner pair.1 table.num_partitions = i

/-- An operation that is not followed by a shuffle writes only keys that belong where it writes them. Of
those that hand on the keys they have read this says that these are pickled again to bytes that
belong there. -/
def staysHome (ctx : Context Obj) (tables : List RollPair) (op : Op Obj) : Bool :=
  (unshuffled ctx op).all fun (t,f) => homeOn ctx tables t f

def Good (ctx : Context Obj) (tables : List RollPair) : Prop := ∀ t ∈ tables, Placed ctx t

theorem Good.append {tables made : List RollPair} (good : Good ctx tables)
    (new : ∀ t ∈ made, Placed ctx t) : Good ctx (tables ++ made) := by
  intro t member
  exact (List.mem_append.mp member).elim (good t) (new t)

theorem Good.set {tables : List RollPair} (good : Good ctx tables) {changed : RollPair}
    (placed : Placed ctx changed) (i : Nat) : Good ctx (tables.set i changed) := by
  intro t member
  exact (List.mem_or_eq_of_mem_set member).elim (good t) (fun same => same ▸ placed)

theorem Good.get {tables : List RollPair} (good : Good ctx tables) {i : Nat} {t : RollPair}
    (found : tables[i]? = some t) : Placed ctx t := good t (List.mem_of_getElem? found)

private theorem mapped_good {tables after : List RollPair} (good : Good ctx tables) {i : Nat}
    {f : Nat → List (Obj × Obj) → List (Obj × Obj)}
    (home : ∀ t, tables[i]? = some t → ∀ p < t.num_partitions,
      ∀ pair ∈ _lifted_map_to_io_serdes ctx.serdes f p (t.partition p).toList,
        ctx.partitioner pair.1 t.num_partitions = p)
    (stepped : ((tables[i]?).bind fun table =>
      (_map_reduce_partitions_with_index ctx table f none false []).map fun made => tables ++ [made]) =
        some after) : Good ctx after := by
  simp only [Option.bind_eq_some_iff,Option.map_eq_some_iff] at stepped
  obtain ⟨t,found,made,done,rfl⟩ := stepped
  have placed := unshuffled_placed (good.get found) (home t found) done
  exact good.append fun table member => List.mem_singleton.mp member ▸ placed

private theorem binary_good (nonempty : ∀ x, ctx.serdes.serialize x ≠ []) {tables after : List RollPair} (good : Good ctx tables)
    {t other : Nat} {f : List (Bytes × Obj) → List (Bytes × Obj) → List (Bytes × Obj)}
    (merges : MergesKeys f) {schedule : List Shuffle.Label}
    (stepped : binary ctx tables t other f schedule = some after) : Good ctx after := by
  unfold binary at stepped
  split at stepped
  · rename_i first second found foundOther
    simp only [Option.map_eq_some_iff] at stepped
    obtain ⟨made,done,rfl⟩ := stepped
    exact good.append (binary_placed nonempty (good.get found) (good.get foundOther) merges done)
  · contradiction

theorem homeOn_spec {tables : List RollPair} {i : Nat} {f : Nat → List (Obj × Obj) → List (Obj × Obj)}
    (home : homeOn ctx tables i f = true) : ∀ t, tables[i]? = some t → ∀ p < t.num_partitions,
      ∀ pair ∈ _lifted_map_to_io_serdes ctx.serdes f p (t.partition p).toList,
        ctx.partitioner pair.1 t.num_partitions = p := by
  intro t found p inside pair member
  simp only [homeOn,Option.all_some,found,List.all_eq_true,List.mem_range,decide_eq_true_eq] at home
  exact home p inside pair member

private theorem step_good (nonempty : ∀ x, ctx.serdes.serialize x ≠ []) {tables after : List RollPair} {op : Op Obj}
    (good : Good ctx tables) (home : staysHome ctx tables op = true)
    (stepped : step ctx tables op = some after) : Good ctx after := by
  cases op with
  | create total_partitions =>
    simp only [step,Option.ite_none_right_eq_some,Option.some.injEq] at stepped
    obtain ⟨positive,rfl⟩ := stepped
    refine good.append fun table member => ?_
    rw [List.mem_singleton.mp member]
    exact ⟨positive,fun i _ k inside => absurd inside Std.ExtTreeMap.not_mem_empty,
      fun i _ k inside => absurd inside Std.ExtTreeMap.not_mem_empty⟩
  | put t k v =>
    simp only [step,Option.bind_eq_some_iff,Option.map_eq_some_iff] at stepped
    obtain ⟨table,found,changed,done,rfl⟩ := stepped
    exact good.set (put_placed (good.get found) done) t
  | put_all t items schedule =>
    simp only [step,Option.bind_eq_some_iff,Option.map_eq_some_iff] at stepped
    obtain ⟨table,found,changed,done,rfl⟩ := stepped
    exact good.set (put_all_placed nonempty (good.get found) done) t
  | put_all_values t items schedule =>
    simp only [step,Option.bind_eq_some_iff,Option.map_eq_some_iff] at stepped
    obtain ⟨table,found,changed,done,rfl⟩ := stepped
    exact good.set (put_all_placed nonempty (good.get found) done) t
  | map t func => exact mapped_good good (homeOn_spec home) stepped
  | flat_map t func => exact mapped_good good (homeOn_spec home) stepped
  | map_values t func => exact mapped_good good (homeOn_spec home) stepped
  | filter t func => exact mapped_good good (homeOn_spec home) stepped
  | sample t draws => exact mapped_good good (homeOn_spec home) stepped
  | collapse_partitions t func => exact mapped_good good (homeOn_spec home) stepped
  | map_partitions t func reduce_op shuffle schedule =>
    cases shuffle with
    | true =>
      simp only [step,Option.bind_eq_some_iff,Option.map_eq_some_iff] at stepped
      obtain ⟨table,found,made,done,rfl⟩ := stepped
      have placed := shuffled_placed nonempty (good.get found) done
      exact good.append fun table member => List.mem_singleton.mp member ▸ placed
    | false =>
      cases reduce_op with
      | none => exact mapped_good good (homeOn_spec home) stepped
      | some op => simp [step,unshuffled] at stepped
  | repartition t num_partitions schedule =>
    simp only [step,Option.bind_eq_some_iff] at stepped
    obtain ⟨table,found,stepped⟩ := stepped
    split at stepped
    · cases stepped
      exact good
    · split at stepped
      · contradiction
      · rename_i nonzero
        simp only [Option.map_eq_some_iff] at stepped
        obtain ⟨made,done,rfl⟩ := stepped
        have placed := repartition_placed nonempty (good.get found) (Nat.pos_of_ne_zero nonzero) done
        exact good.append fun table member => List.mem_singleton.mp member ▸ placed
  | join t other func schedule => exact binary_good nonempty good (intersecting_merges func) stepped
  | union t other func schedule => exact binary_good nonempty good (union_merges func) stepped
  | subtract_by_key t other schedule => exact binary_good nonempty good subtract_merges stepped

/-- In every run in which the operations that are not followed by a shuffle keep each key in its
partition, every key of every store is where the partitioner sends it, so that `get` finds it and
two stores with as many partitions have equal keys in equal partitions. -/
theorem placement (nonempty : ∀ x, ctx.serdes.serialize x ≠ []) {tables : List RollPair}
    (reached : ((system ctx).restrict (staysHome ctx)).Reachable tables) :
    (∀ t ∈ tables, ∀ i < t.num_partitions, ∀ k ∈ t.partition i,
      mmh3_partitioner ctx.hash k t.num_partitions = i) ∧
    (∀ t ∈ tables, ∀ i < t.num_partitions, ∀ x v,
      (t.partition i)[ctx.serdes.serialize x]? = some v → get ctx t x = some (ctx.serdes.deserialize v)) ∧
    ∀ t ∈ tables, ∀ u ∈ tables, t.num_partitions = u.num_partitions →
      ∀ i < t.num_partitions, ∀ j < u.num_partitions, ∀ k ∈ t.partition i, k ∈ u.partition j → i = j := by
  have good : Good ctx tables := by
    apply reached.invariant
    · rintro _ rfl _ member
      contradiction
    · intro before op after good stepped
      obtain ⟨home,stepped⟩ := (System.restrict_step_iff _ _ _ _ _).mp stepped
      exact step_good nonempty good home stepped
  refine ⟨fun t member => (good t member).inPlace,fun t member i inside x v stored => ?_,
    fun t memberT u memberU same i insideI j insideJ k left right => ?_⟩
  · have present : ctx.serdes.serialize x ∈ t.partition i := by
      rw [Std.ExtTreeMap.mem_iff_isSome_getElem?,stored]
      rfl
    have home := (good t member).inPlace i inside _ present
    simp only [get,home,stored,Option.map_some]
  · rw [← (good t memberT).inPlace i insideI k left,← (good u memberU).inPlace j insideJ k right,same]

end
/-- `mmh3.hash`: MurmurHash3 of 32 bits with seed 0, as a signed number. -/
def mmh3_hash (key : Bytes) : Int :=
  let rotl (x : UInt32) (r : UInt32) : UInt32 := (x <<< r) ||| (x >>> (32 - r))
  let mix (k : UInt32) : UInt32 := rotl (k * 0xcc9e2d51) 15 * 0x1b873593
  let rec body : Bytes → UInt32 → UInt32
    | a :: b :: c :: d :: rest, h =>
      let k := a.toUInt32 ||| b.toUInt32 <<< 8 ||| c.toUInt32 <<< 16 ||| d.toUInt32 <<< 24
      body rest (rotl (h ^^^ mix k) 13 * 5 + 0xe6546b64)
    | tail, h => h ^^^ mix (tail.foldr (fun byte k => k <<< 8 ||| byte.toUInt32) 0)
  let h := body key 0 ^^^ UInt32.ofNat key.length
  let h := (h ^^^ h >>> 16) * 0x85ebca6b
  let h := (h ^^^ h >>> 13) * 0xc2b2ae35
  let h := h ^^^ h >>> 16
  if h < 0x80000000 then h.toNat else h.toNat - 0x100000000

/-- The integers from 0 to 255 as `pickle` writes them. -/
def smallInts : Context UInt8 where
  serdes := ⟨fun n => [128,4,75,n,46],fun bytes => bytes.getD 3 0,fun _ => false,UInt8.ofNat⟩
  hash := mmh3_hash
  config := ⟨fun k => !k.isEmpty,100,1048576,100⟩

theorem smallInts_laws : Laws smallInts.serdes :=
  ⟨fun _ => rfl,fun x => by simp [smallInts]⟩

/-- A key that `map` changes from 0 to 2 stays in partition 1 of two and belongs into
partition 0. -/
theorem map_misplaces : ¬ ∀ tables, (system smallInts).Reachable tables →
    ∀ t ∈ tables, ∀ i < t.num_partitions, ∀ k ∈ t.partition i,
      mmh3_partitioner smallInts.hash k t.num_partitions = i := by
  intro always
  have misplaced : ((system smallInts).exec []
      [.create 2,.put 0 0 7,.map 0 (fun _ v => (2,v))]).any (fun tables =>
        (tables[1]?).any fun t => decide (t.num_partitions = 2) &&
          (t.partition 1).contains [128,4,75,2,46] && (get smallInts t 2).isNone) = true := by
    decide +kernel
  obtain ⟨tables,run,found⟩ := (Option.any_eq_true _ _).mp misplaced
  obtain ⟨t,second,facts⟩ := (Option.any_eq_true _ _).mp found
  rw [Bool.and_eq_true,Bool.and_eq_true,decide_eq_true_iff] at facts
  obtain ⟨⟨count,inside⟩,_⟩ := facts
  have home := always tables ⟨_,_,rfl,run⟩ t (List.mem_of_getElem? second) 1 (by omega)
    [128,4,75,2,46] (Std.ExtTreeMap.mem_iff_contains.mpr inside)
  rw [count] at home
  revert home
  decide +kernel

/-- Changing the key 0 to 1 keeps it in partition 1 of two. -/
theorem placement_of_map : ∃ tables, ((system smallInts).restrict (staysHome smallInts)).Reachable tables ∧
    ∃ t ∈ tables, (t.partition 1).contains [128,4,75,1,46] = true ∧ get smallInts t 1 = some 7 := by
  have ends : (((system smallInts).restrict (staysHome smallInts)).exec []
      [.create 2,.put 0 0 7,.map 0 (fun _ v => (1,v))]).any (fun tables =>
        (tables[1]?).any fun t => decide (t.num_partitions = 2) &&
          (t.partition 1)[([128,4,75,1,46] : Bytes)]? == some [128,4,75,7,46]) = true := by
    decide +kernel
  obtain ⟨tables,run,found⟩ := (Option.any_eq_true _ _).mp ends
  obtain ⟨t,second,facts⟩ := (Option.any_eq_true _ _).mp found
  rw [Bool.and_eq_true,decide_eq_true_iff,beq_iff_eq] at facts
  have reached : ((system smallInts).restrict (staysHome smallInts)).Reachable tables := ⟨_,_,rfl,run⟩
  have member := List.mem_of_getElem? second
  have finds := (placement smallInts_laws.nonempty reached).2.1 t member 1 (by omega) 1 _ facts.2
  refine ⟨tables,reached,t,member,?_,finds⟩
  rw [Std.ExtTreeMap.contains_eq_isSome_getElem?,facts.2]
  rfl

end Eggroll.Table
