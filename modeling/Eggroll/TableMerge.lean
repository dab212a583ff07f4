import Eggroll.TablePlacement
import Eggroll.Library.SortedMerge

/-! Join, union and subtract as operations on maps: the generators of the sorted merges turn
by turn, what they yield, and the tables that come of it when the partitions of two tables
are merged after a repartition of the smaller one. -/
namespace Eggroll.Table
open Library Format Store Shuffle

section
variable {A B C : Type}

/-- `next(iter)`: the item and what the iterator has left; `none` is StopIteration. -/
def next_item {α : Type} : List α → Option (α × List α)
  | [] => none
  | item :: iter => some (item,iter)

def remaining {α : Type} : Option (α × List α) → List α
  | none => []
  | some (item,iter) => item :: iter

abbrev Taken (α : Type) := α × List α

/-- One turn of `while True` in `_merge_intersecting_keys`. -/
def intersecting_turn (merge_op : A → B → C) :
    Taken (Bytes × A) × Taken (Bytes × B) →
      List (Bytes × C) × Option (Taken (Bytes × A) × Taken (Bytes × B))
  | (((key1,value1),iter1),((key2,value2),iter2)) =>
    match compare key1 key2 with
    | .eq => ([(key1,merge_op value1 value2)],
        (next_item iter1).bind fun first => (next_item iter2).map fun second => (first,second))
    | .lt => ([],(next_item iter1).map fun first => (first,((key2,value2),iter2)))
    | .gt => ([],(next_item iter2).map fun second => (((key1,value1),iter1),second))

def run_merge_intersecting_keys (merge_op : A → B → C) (fuel : Nat) (iter1 : List (Bytes × A))
    (iter2 : List (Bytes × B)) : Option (List (Bytes × C)) :=
  match next_item iter1,next_item iter2 with
  | some first,some second => loop (intersecting_turn merge_op) fuel (first,second)
  | _,_ => some []

/-- One turn of the loop in `_merge_union_keys`, or what follows the loop. -/
def union_turn (merge_op : A → A → A) :
    Option (Taken (Bytes × A)) × Option (Taken (Bytes × A)) →
      List (Bytes × A) × Option (Option (Taken (Bytes × A)) × Option (Taken (Bytes × A)))
  | (some ((key1,value1),iter1),some ((key2,value2),iter2)) =>
    match compare key1 key2 with
    | .eq => ([(key1,merge_op value1 value2)],some (next_item iter1,next_item iter2))
    | .lt => ([(key1,value1)],some (next_item iter1,some ((key2,value2),iter2)))
    | .gt => ([(key2,value2)],some (some ((key1,value1),iter1),next_item iter2))
  | (some (item1,iter1),none) => (item1 :: iter1,none)
  | (none,some (item2,iter2)) => (item2 :: iter2,none)
  | (none,none) => ([],none)

def run_merge_union_keys (merge_op : A → A → A) (fuel : Nat) (iter1 iter2 : List (Bytes × A)) :
    Option (List (Bytes × A)) :=
  loop (union_turn merge_op) fuel (next_item iter1,next_item iter2)

/-- One turn of the loop in `_subtract_by_key`, or what follows the loop. -/
def subtract_turn :
    Option (Taken (Bytes × A)) × Option (Taken (Bytes × B)) →
      List (Bytes × A) × Option (Option (Taken (Bytes × A)) × Option (Taken (Bytes × B)))
  | (some ((key1,value1),iter1),some ((key2,value2),iter2)) =>
    match compare key1 key2 with
    | .eq => ([],some (next_item iter1,next_item iter2))
    | .lt => ([(key1,value1)],some (next_item iter1,some ((key2,value2),iter2)))
    | .gt => ([],some (some ((key1,value1),iter1),next_item iter2))
  | (some (item1,iter1),none) => (item1 :: iter1,none)
  | (none,_) => ([],none)

def run_subtract_by_key (fuel : Nat) (iter1 : List (Bytes × A)) (iter2 : List (Bytes × B)) :
    Option (List (Bytes × A)) :=
  match next_item iter1,next_item iter2 with
  | none,_ => some []
  | some (item1,iter1),none => some (item1 :: iter1)
  | some first,some second => loop subtract_turn fuel (some first,some second)

@[simp] theorem remaining_next_item {α : Type} (iter : List α) : remaining (next_item iter) = iter := by
  cases iter <;> rfl

@[simp] theorem _merge_intersecting_keys_nil (merge_op : A → B → C) (iter1 : List (Bytes × A)) :
    _merge_intersecting_keys merge_op iter1 [] = [] := by
  cases iter1 <;> simp [_merge_intersecting_keys]

@[simp] theorem _merge_union_keys_nil (merge_op : A → A → A) (iter1 : List (Bytes × A)) :
    _merge_union_keys merge_op iter1 [] = iter1 := by
  cases iter1 <;> simp [_merge_union_keys]

@[simp] theorem _subtract_by_key_nil (iter1 : List (Bytes × A)) :
    _subtract_by_key iter1 ([] : List (Bytes × B)) = iter1 := by
  cases iter1 <;> simp [_subtract_by_key]

def unread {α β : Type} (s : Option (Taken α) × Option (Taken β)) : Nat :=
  (remaining s.1).length + (remaining s.2).length

private theorem run_merge_intersecting_keys_ends (merge_op : A → B → C) {fuel : Nat} (iter1 : List (Bytes × A))
    (iter2 : List (Bytes × B)) (enough : iter1.length + iter2.length < fuel) :
    run_merge_intersecting_keys merge_op fuel iter1 iter2 =
      some (_merge_intersecting_keys merge_op iter1 iter2) := by
  have ends (first : Taken (Bytes × A)) (second : Taken (Bytes × B))
      (left : first.2.length + second.2.length < fuel) :
      loop (intersecting_turn merge_op) fuel (first,second) =
        some (_merge_intersecting_keys merge_op (first.1 :: first.2) (second.1 :: second.2)) := by
    refine loop_ends (fun s : Taken (Bytes × A) × Taken (Bytes × B) => s.1.2.length + s.2.2.length)
      (fun s => _merge_intersecting_keys merge_op (s.1.1 :: s.1.2) (s.2.1 :: s.2.2)) ?_ ?_ left
    · rintro ⟨⟨⟨key1,value1⟩,iter1⟩,⟨⟨key2,value2⟩,iter2⟩⟩
      cases order : compare key1 key2 with
      | eq => cases iter1 <;> cases iter2 <;> simp [intersecting_turn,order,next_item,_merge_intersecting_keys]
      | lt => cases iter1 <;> simp [intersecting_turn,order,next_item,_merge_intersecting_keys]
      | gt => cases iter2 <;> simp [intersecting_turn,order,next_item,_merge_intersecting_keys]
    · rintro ⟨⟨⟨key1,value1⟩,iter1⟩,⟨⟨key2,value2⟩,iter2⟩⟩ s' turned
      cases order : compare key1 key2 with
      | eq =>
        cases iter1 <;> cases iter2 <;> simp [intersecting_turn,order,next_item] at turned
        simp only [← turned,List.length_cons]
        omega
      | lt =>
        cases iter1 <;> simp [intersecting_turn,order,next_item] at turned
        simp only [← turned,List.length_cons]
        omega
      | gt =>
        cases iter2 <;> simp [intersecting_turn,order,next_item] at turned
        simp only [← turned,List.length_cons]
        omega
  cases iter1 with
  | nil => simp [run_merge_intersecting_keys,next_item,_merge_intersecting_keys]
  | cons item1 iter1 =>
    cases iter2 with
    | nil => simp [run_merge_intersecting_keys,next_item]
    | cons item2 iter2 =>
      rw [List.length_cons,List.length_cons] at enough
      exact ends (item1,iter1) (item2,iter2) (by simp only; omega)

private theorem union_loop_ends (merge_op : A → A → A) {fuel : Nat}
    (s : Option (Taken (Bytes × A)) × Option (Taken (Bytes × A))) (enough : unread s < fuel) :
    loop (union_turn merge_op) fuel s = some (_merge_union_keys merge_op (remaining s.1) (remaining s.2)) := by
  refine loop_ends unread (fun s => _merge_union_keys merge_op (remaining s.1) (remaining s.2)) ?_ ?_ enough
  · rintro ⟨_ | ⟨⟨key1,value1⟩,iter1⟩,_ | ⟨⟨key2,value2⟩,iter2⟩⟩
    · simp [union_turn,remaining]
    · simp [union_turn,remaining,_merge_union_keys]
    · simp [union_turn,remaining]
    · cases order : compare key1 key2 <;>
        simp [union_turn,order,remaining.eq_2,_merge_union_keys]
  · rintro ⟨_ | ⟨⟨key1,value1⟩,iter1⟩,_ | ⟨⟨key2,value2⟩,iter2⟩⟩ s' turned
    · simp [union_turn] at turned
    · simp [union_turn] at turned
    · simp [union_turn] at turned
    · cases order : compare key1 key2 <;> simp only [union_turn,order,Option.some.injEq] at turned <;>
        simp only [← turned,unread,remaining_next_item,remaining.eq_2,List.length_cons] <;> omega

private theorem run_merge_union_keys_ends (merge_op : A → A → A) {fuel : Nat} (iter1 iter2 : List (Bytes × A))
    (enough : iter1.length + iter2.length < fuel) :
    run_merge_union_keys merge_op fuel iter1 iter2 = some (_merge_union_keys merge_op iter1 iter2) := by
  have few : unread (next_item iter1,next_item iter2) < fuel := by simpa [unread] using enough
  have ends := union_loop_ends merge_op _ few
  rwa [remaining_next_item,remaining_next_item] at ends

private theorem subtract_loop_ends {fuel : Nat} (s : Option (Taken (Bytes × A)) × Option (Taken (Bytes × B)))
    (enough : unread s < fuel) :
    loop subtract_turn fuel s = some (_subtract_by_key (remaining s.1) (remaining s.2)) := by
  refine loop_ends unread (fun s => _subtract_by_key (remaining s.1) (remaining s.2)) ?_ ?_ enough
  · rintro ⟨_ | ⟨⟨key1,value1⟩,iter1⟩,_ | ⟨⟨key2,value2⟩,iter2⟩⟩
    · simp [subtract_turn,remaining]
    · simp [subtract_turn,remaining,_subtract_by_key]
    · simp [subtract_turn,remaining]
    · cases order : compare key1 key2 <;>
        simp [subtract_turn,order,remaining.eq_2,_subtract_by_key]
  · rintro ⟨_ | ⟨⟨key1,value1⟩,iter1⟩,_ | ⟨⟨key2,value2⟩,iter2⟩⟩ s' turned
    · simp [subtract_turn] at turned
    · simp [subtract_turn] at turned
    · simp [subtract_turn] at turned
    · cases order : compare key1 key2 <;> simp only [subtract_turn,order,Option.some.injEq] at turned <;>
        simp only [← turned,unread,remaining_next_item,remaining.eq_2,List.length_cons] <;> omega

private theorem run_subtract_by_key_ends {fuel : Nat} (iter1 : List (Bytes × A)) (iter2 : List (Bytes × B))
    (enough : iter1.length + iter2.length < fuel) :
    run_subtract_by_key fuel iter1 iter2 = some (_subtract_by_key iter1 iter2) := by
  cases iter1 with
  | nil => simp [run_subtract_by_key,next_item,_subtract_by_key]
  | cons item1 iter1 =>
    cases iter2 with
    | nil => simp [run_subtract_by_key,next_item]
    | cons item2 iter2 => exact subtract_loop_ends (some (item1,iter1),some (item2,iter2)) enough

private theorem intersecting_eq_mergeWith (merge_op : A → B → C) (iter1 : List (Bytes × A))
    (iter2 : List (Bytes × B)) :
    _merge_intersecting_keys merge_op iter1 iter2 = mergeWith (both merge_op) iter1 iter2 := by
  fun_induction mergeWith (both merge_op) iter1 iter2 with
  | case1 => simp
  | case2 k b rest ih => rw [← ih]; simp [_merge_intersecting_keys,both,emit]
  | case3 k a rest ih => rw [← ih]; simp [both,emit]
  | case4 k a rest k' b rest' equal ih => rw [← ih]; simp [_merge_intersecting_keys,equal,both,emit]
  | case5 k a rest k' b rest' less ih => rw [← ih]; simp [_merge_intersecting_keys,less,both,emit]
  | case6 k a rest k' b rest' greater ih => rw [← ih]; simp [_merge_intersecting_keys,greater,both,emit]

private theorem union_eq_mergeWith (merge_op : A → A → A) (iter1 iter2 : List (Bytes × A)) :
    _merge_union_keys merge_op iter1 iter2 = mergeWith (either merge_op) iter1 iter2 := by
  fun_induction mergeWith (either merge_op) iter1 iter2 with
  | case1 => simp
  | case2 k b rest ih => rw [← ih]; simp [_merge_union_keys,either,emit]
  | case3 k a rest ih => rw [← ih]; simp [either,emit]
  | case4 k a rest k' b rest' equal ih => rw [← ih]; simp [_merge_union_keys,equal,either,emit]
  | case5 k a rest k' b rest' less ih => rw [← ih]; simp [_merge_union_keys,less,either,emit]
  | case6 k a rest k' b rest' greater ih => rw [← ih]; simp [_merge_union_keys,greater,either,emit]

private theorem subtract_eq_mergeWith (iter1 : List (Bytes × A)) (iter2 : List (Bytes × B)) :
    _subtract_by_key iter1 iter2 = mergeWith without iter1 iter2 := by
  fun_induction mergeWith (without : Option A → Option B → Option A) iter1 iter2 with
  | case1 => simp
  | case2 k b rest ih => rw [← ih]; simp [_subtract_by_key,without,emit]
  | case3 k a rest ih => rw [← ih]; simp [without,emit]
  | case4 k a rest k' b rest' equal ih => rw [← ih]; simp [_subtract_by_key,equal,without,emit]
  | case5 k a rest k' b rest' less ih => rw [← ih]; simp [_subtract_by_key,less,without,emit]
  | case6 k a rest k' b rest' greater ih => rw [← ih]; simp [_subtract_by_key,greater,without,emit]

end

theorem increasing_toList (db : Db) : Increasing db.toList := Std.ExtTreeMap.ordered_keys_toList

theorem lookup_toList (db : Db) (k : Bytes) : db.toList.lookup k = db[k]? := by
  cases found : db[k]? with
  | none =>
    rw [List.lookup_eq_none_iff]
    intro pair member
    rw [bne_iff_ne]
    rintro rfl
    have present := Std.ExtTreeMap.mem_toList_iff_getElem?_eq_some.mp member
    rw [found] at present
    contradiction
  | some v =>
    have member : (k,v) ∈ db.toList := Std.ExtTreeMap.mem_toList_iff_getElem?_eq_some.mpr found
    have listed : k ∈ db.toList.map Prod.fst := List.mem_map.mpr ⟨_,member,rfl⟩
    cases looked : db.toList.lookup k with
    | none =>
      have absent := List.lookup_eq_none_iff.mp looked _ member
      simp at absent
    | some w =>
      obtain ⟨before,after,same,_⟩ := List.lookup_eq_some_iff.mp looked
      have other : (k,w) ∈ db.toList := by simp [same]
      have value := Std.ExtTreeMap.mem_toList_iff_getElem?_eq_some.mp other
      exact (value.symm.trans found)

private theorem lookup_map_snd {A B : Type} (f : A → B) (pairs : List (Bytes × A)) (k : Bytes) :
    (pairs.map fun p => (p.1,f p.2)).lookup k = (pairs.lookup k).map f := by
  induction pairs with
  | nil => rfl
  | cons p rest ih =>
    rw [List.map_cons,lookup_head,lookup_head,ih]
    split <;> rfl

private theorem increasing_map_snd {A B : Type} (f : A → B) {pairs : List (Bytes × A)} (increasing : Increasing pairs) :
    Increasing (pairs.map fun p => (p.1,f p.2)) :=
  List.pairwise_map.mpr increasing

theorem written_lookup {accepts : Bytes → Bool} {pairs : List Pair} (increasing : Increasing pairs) {db : Db}
    (done : written accepts pairs = .ok db) (k : Bytes) : db[k]? = pairs.lookup k := by
  suffices ∀ before : Db, pairs.foldlM (fun db pair => Store.put accepts db pair.1 pair.2) before = .ok db →
      db[k]? = (pairs.lookup k).or before[k]? by
    have result := this ∅ done
    rwa [Std.ExtTreeMap.getElem?_empty,Option.or_none] at result
  clear done
  induction pairs with
  | nil =>
    intro before done
    cases done
    rfl
  | cons pair rest ih =>
    intro before done
    obtain ⟨below,rest_increasing⟩ := increasing_cons.mp increasing
    rw [List.foldlM_cons] at done
    cases first : Store.put accepts before pair.1 pair.2 with
    | error e => simp [first,bind,Except.bind] at done
    | ok middle =>
      simp only [first,bind,Except.bind] at done
      rw [ih rest_increasing middle done,put_get first,lookup_head]
      by_cases same : k = pair.1
      · subst same
        simp [below.lookup]
      · simp [same,Ne.symm same]

private theorem written_succeeds {accepts : Bytes → Bool} {pairs : List Pair}
    (accepted : ∀ pair ∈ pairs, accepts pair.1 = true) : ∃ db, written accepts pairs = .ok db := by
  suffices ∀ before : Db, ∃ db, pairs.foldlM (fun db pair => Store.put accepts db pair.1 pair.2) before = .ok db from
    this ∅
  induction pairs with
  | nil => exact fun before => ⟨before,rfl⟩
  | cons pair rest ih =>
    intro before
    rw [List.foldlM_cons,Store.put,if_pos (accepted pair List.mem_cons_self)]
    exact ih (fun later member => accepted later (List.mem_cons_of_mem _ member)) _

section
variable {Obj : Type} {ctx : Context Obj}

/-- A table in the cluster: its keys are where the partitioner sends them, and LMDB has
taken them. -/
structure Kept (ctx : Context Obj) (t : RollPair) : Prop extends Placed ctx t where
  accepted : ∀ i < t.num_partitions, ∀ k ∈ t.partition i, ctx.config.accepts k = true

def found (ctx : Context Obj) (t : RollPair) (k : Bytes) : Option Bytes :=
  (t.partition (ctx.partitioner k t.num_partitions))[k]?

theorem get_eq_found (t : RollPair) (x : Obj) :
    get ctx t x = (found ctx t (ctx.serdes.serialize x)).map ctx.serdes.deserialize := rfl

theorem Placed.found_of_mem {t : RollPair} (placed : Placed ctx t) {i : Nat} (inside : i < t.num_partitions)
    {k v : Bytes} (member : (k,v) ∈ (t.partition i).toList) : found ctx t k = some v := by
  rw [found,(placed.atHome inside member).1]
  exact Std.ExtTreeMap.mem_toList_iff_getElem?_eq_some.mp member

def allPairs (t : RollPair) : List Pair := (List.range t.num_partitions).flatMap fun i => (t.partition i).toList

theorem Placed.allPairs_nodup {t : RollPair} (placed : Placed ctx t) : ((allPairs t).map Prod.fst).Nodup := by
  rw [allPairs,List.map_flatMap,List.nodup_flatMap]
  refine ⟨fun i _ => ?_,?_⟩
  · rw [Std.ExtTreeMap.map_fst_toList_eq_keys]
    exact Std.ExtTreeMap.nodup_keys
  · refine List.nodup_range.imp_of_mem ?_
    intro i j insideI insideJ other k left right
    obtain ⟨⟨_,v⟩,member,rfl⟩ := List.mem_map.mp left
    obtain ⟨⟨l,w⟩,member',same⟩ := List.mem_map.mp right
    simp only at same
    subst same
    have homeI := (placed.atHome (List.mem_range.mp insideI) member).1
    have homeJ := (placed.atHome (List.mem_range.mp insideJ) member').1
    exact other (homeI.symm.trans homeJ)

private theorem Placed.valuesOf_allPairs {t : RollPair} (placed : Placed ctx t) (k : Bytes) :
    valuesOf k (allPairs t) = (found ctx t k).toList := by
  cases known : found ctx t k with
  | some v =>
    apply valuesOf_of_nodup placed.allPairs_nodup
    rw [allPairs,List.mem_flatMap]
    exact ⟨_,List.mem_range.mpr (partitioner_lt k placed.positive),
      Std.ExtTreeMap.mem_toList_iff_getElem?_eq_some.mpr known⟩
  | none =>
    apply valuesOf_eq_nil
    intro present
    obtain ⟨⟨_,v⟩,member,rfl⟩ := List.mem_map.mp present
    obtain ⟨i,inside,listed⟩ := List.mem_flatMap.mp member
    rw [placed.found_of_mem (List.mem_range.mp inside) listed] at known
    contradiction

theorem repartition_kept (laws : Laws ctx.serdes) {t made : RollPair} (kept : Kept ctx t) {n : Nat}
    (positive : 0 < n) {schedule : List Shuffle.Label} (done : repartition ctx t n schedule = some made) :
    Kept ctx made ∧ ∀ k, found ctx made k = found ctx t k := by
  have placed := repartition_placed laws.nonempty kept.toPlaced positive done
  rw [repartition,map_reduce_partitions_with_index,if_pos rfl] at done
  simp only [run_shuffle,Option.bind_eq_some_iff,Option.ite_none_right_eq_some,Option.some.injEq] at done
  obtain ⟨s,run,finished,rfl⟩ := done
  have storable : Storable (mapReduce ctx.config t.num_partitions n t.partition
      (fun _ iter => .iterable iter) ctx.partitioner none) := by
    refine ⟨fun p inside pair member => ?_,fun p inside pair member => ?_⟩
    · obtain ⟨x,same⟩ := (kept.atHome inside member).2
      exact same ▸ laws.nonempty x
    · exact kept.accepted p inside pair.1 (mem_of_toList member)
  have holds := reachable_invariant storable.nonempty ⟨_,schedule,rfl,run⟩
  have value (j : Nat) (within : j < n) (k : Bytes) : (s.sink j).db[k]? =
      if ctx.partitioner k n = j then found ctx t k else none := by
    have stored := holds.finished_store storable (fun op none_ => by simp [mapReduce] at none_)
      (fun _ => kept.toPlaced.allPairs_nodup) finished within rfl k
    have values : valuesOf k (mapReduce ctx.config t.num_partitions n t.partition
        (fun _ iter => .iterable iter) ctx.partitioner none).mapped = (found ctx t k).toList :=
      kept.toPlaced.valuesOf_allPairs k
    rw [values] at stored
    rw [stored]
    cases found ctx t k <;> rfl
  refine ⟨⟨placed,fun j within k member => ?_⟩,fun k => ?_⟩
  · have stored := value j within k
    rw [Std.ExtTreeMap.mem_iff_isSome_getElem?] at member
    rw [stored] at member
    split at member
    · obtain ⟨v,known⟩ := Option.isSome_iff_exists.mp member
      rw [found] at known
      exact kept.accepted _ (partitioner_lt k kept.positive) k
        (Std.ExtTreeMap.mem_iff_isSome_getElem?.mpr (by rw [known]; rfl))
    · simp at member
  · have stored := value (ctx.partitioner k n) (partitioner_lt k positive) k
    rw [if_pos rfl] at stored
    exact stored

private theorem repartition_with_kept (laws : Laws ctx.serdes) {t other first second : RollPair} {made : List RollPair}
    (kept : Kept ctx t) (keptOther : Kept ctx other) {schedule : List Shuffle.Label}
    (done : repartition_with ctx t other schedule = some (first,second,made)) :
    (Kept ctx first ∧ ∀ k, found ctx first k = found ctx t k) ∧
      (Kept ctx second ∧ ∀ k, found ctx second k = found ctx other k) ∧
      first.num_partitions = second.num_partitions := by
  unfold repartition_with at done
  split at done
  · rename_i same
    cases done
    exact ⟨⟨kept,fun _ => rfl⟩,⟨keptOther,fun _ => rfl⟩,same⟩
  · split at done
    · simp only [Option.map_eq_some_iff,Prod.mk.injEq] at done
      obtain ⟨table,again,rfl,rfl,rfl⟩ := done
      exact ⟨⟨kept,fun _ => rfl⟩,repartition_kept laws keptOther kept.positive again,(repartition_num again).symm⟩
    · simp only [Option.map_eq_some_iff,Prod.mk.injEq] at done
      obtain ⟨table,again,rfl,rfl,rfl⟩ := done
      exact ⟨repartition_kept laws kept keptOther.positive again,⟨keptOther,fun _ => rfl⟩,repartition_num again⟩

private theorem MapOp.mem_value {A B C : Type} {combine : Option A → Option B → Option C} {first : List (Bytes × A)}
    {second : List (Bytes × B)} {out : List (Bytes × C)} (quiet : combine none none = none)
    (op : MapOp combine first second out) {pair : Bytes × C} (member : pair ∈ out) :
    (first.lookup pair.1).isSome ∨ (second.lookup pair.1).isSome := by
  have present : out.lookup pair.1 ≠ none := by
    intro absent
    have other := List.lookup_eq_none_iff.mp absent _ member
    simp at other
  rw [op.value] at present
  cases left : first.lookup pair.1 with
  | some a => exact .inl rfl
  | none =>
    cases right : second.lookup pair.1 with
    | some b => exact .inr rfl
    | none => exact absurd (by rw [left,right,quiet]) present

private theorem lifted_mapOp {f : List (Bytes × Obj) → List (Bytes × Obj) → List (Bytes × Obj)}
    {combine : Option Obj → Option Obj → Option Obj}
    (op : ∀ first second, Increasing first → Increasing second → MapOp combine first second (f first second))
    (left right : Db) :
    MapOp (fun a b => (combine (a.map ctx.serdes.deserialize) (b.map ctx.serdes.deserialize)).map ctx.serdes.serialize)
      left.toList right.toList (lifted_sorted_binary ctx f left.toList right.toList) := by
  have merged := op _ _ (increasing_map_snd ctx.serdes.deserialize (increasing_toList left))
    (increasing_map_snd ctx.serdes.deserialize (increasing_toList right))
  refine ⟨increasing_map_snd ctx.serdes.serialize merged.increasing,fun k => ?_⟩
  rw [← lookup_map_snd,← lookup_map_snd,← merged.value]
  exact lookup_map_snd ctx.serdes.serialize _ k

theorem binary_mapOp (laws : Laws ctx.serdes) {t other first second : RollPair} {made : List RollPair}
    (kept : Kept ctx t) (keptOther : Kept ctx other) {schedule : List Shuffle.Label}
    (done : repartition_with ctx t other schedule = some (first,second,made))
    {f : List (Bytes × Obj) → List (Bytes × Obj) → List (Bytes × Obj)}
    {combine : Option Obj → Option Obj → Option Obj} (quiet : combine none none = none)
    (op : ∀ first second, Increasing first → Increasing second → MapOp combine first second (f first second)) :
    ∃ result, binarySortedMapPartitionsWithIndex ctx t other f schedule = some (made ++ [result]) ∧
      Kept ctx result ∧ ∀ x, get ctx result x = combine (get ctx t x) (get ctx other x) := by
  obtain ⟨⟨keptFirst,same⟩,⟨keptSecond,same'⟩,equal⟩ := repartition_with_kept laws kept keptOther done
  let outputs (i : Nat) : List Pair :=
    lifted_sorted_binary ctx f (first.partition i).toList (second.partition i).toList
  have lifted (i : Nat) : MapOp _ _ _ (outputs i) := lifted_mapOp op (first.partition i) (second.partition i)
  have known {i : Nat} (inside : i < first.num_partitions) {pair : Pair} (member : pair ∈ outputs i) :
      AtHome ctx first.num_partitions i pair.1 ∧ ctx.config.accepts pair.1 = true := by
    have present := MapOp.mem_value (by simp [quiet]) (lifted i) member
    rw [lookup_toList,lookup_toList,← Std.ExtTreeMap.mem_iff_isSome_getElem?,
      ← Std.ExtTreeMap.mem_iff_isSome_getElem?] at present
    rcases present with left | right
    · exact ⟨⟨keptFirst.inPlace i inside _ left,keptFirst.encoded i inside _ left⟩,
        keptFirst.accepted i inside _ left⟩
    · rw [equal] at inside ⊢
      exact ⟨⟨keptSecond.inPlace i inside _ right,keptSecond.encoded i inside _ right⟩,
        keptSecond.accepted i inside _ right⟩
  have succeeds (i : Nat) (inside : i < first.num_partitions) :
      ∃ db, written ctx.config.accepts (outputs i) = .ok db :=
    written_succeeds fun pair member => (known inside member).2
  obtain ⟨result,wrote⟩ : ∃ result,
      gathered first.num_partitions (fun i => written ctx.config.accepts (outputs i)) = some result := by
    rw [gathered,if_pos]
    · exact ⟨_,rfl⟩
    · rw [List.all_eq_true]
      intro i inside
      obtain ⟨db,stored⟩ := succeeds i (List.mem_range.mp inside)
      rw [stored]
      rfl
  obtain ⟨size,results⟩ := gathered_spec wrote
  have placed : Placed ctx result :=
    gathered_placed keptFirst.positive (fun i inside pair member => (known inside member).1) wrote
  refine ⟨result,?_,⟨placed,fun i inside k member => ?_⟩,fun x => ?_⟩
  · rw [binarySortedMapPartitionsWithIndex,done,Option.bind_some]
    exact congrArg (Option.map fun result => made ++ [result]) wrote
  · obtain ⟨pair,listed,rfl⟩ := written_mem (results i (size ▸ inside)) member
    exact (known (size ▸ inside) listed).2
  · let key := ctx.serdes.serialize x
    have home : ctx.partitioner key first.num_partitions < first.num_partitions :=
      partitioner_lt key keptFirst.positive
    have stored := written_lookup (lifted _).increasing (results _ home) key
    have left : (first.partition (ctx.partitioner key first.num_partitions))[key]? = found ctx t key := same key
    have right : (second.partition (ctx.partitioner key first.num_partitions))[key]? = found ctx other key := by
      rw [equal]
      exact same' key
    rw [(lifted _).value,lookup_toList,lookup_toList,left,right] at stored
    have at_home : found ctx result key = (combine ((found ctx t key).map ctx.serdes.deserialize)
        ((found ctx other key).map ctx.serdes.deserialize)).map ctx.serdes.serialize := by
      rw [found,size]
      exact stored
    rw [get_eq_found,at_home,Option.map_map,get_eq_found,get_eq_found]
    have back : ctx.serdes.deserialize ∘ ctx.serdes.serialize = id := funext laws.roundtrip
    rw [back,Option.map_id_fun,id_eq]

end

section
variable {A B C : Type}

theorem intersecting_mapOp (f : A → B → C) (first : List (Bytes × A)) (second : List (Bytes × B))
    (increasing : Increasing first) (increasing' : Increasing second) :
    MapOp (both f) first second (_merge_intersecting_keys f first second) :=
  intersecting_eq_mergeWith f first second ▸ mapOp_mergeWith rfl increasing increasing'

theorem union_mapOp (f : A → A → A) (first second : List (Bytes × A)) (increasing : Increasing first)
    (increasing' : Increasing second) : MapOp (either f) first second (_merge_union_keys f first second) :=
  union_eq_mergeWith f first second ▸ mapOp_mergeWith rfl increasing increasing'

theorem subtract_mapOp (first : List (Bytes × A)) (second : List (Bytes × B)) (increasing : Increasing first)
    (increasing' : Increasing second) : MapOp without first second (_subtract_by_key first second) :=
  subtract_eq_mergeWith first second ▸ mapOp_mergeWith rfl increasing increasing'

end

/-- `result` is the operation `combine` on the maps that two tables are. -/
structure Combines {Obj : Type} (ctx : Context Obj) (combine : Option Obj → Option Obj → Option Obj)
    (t other result : RollPair) : Prop where
  kept : Kept ctx result
  value : ∀ x, get ctx result x = combine (get ctx t x) (get ctx other x)

/-- The three generators end after as many turns as there are items, and yield the
intersection, the union and the difference of two increasing lists, in order; and so do
`join`, `union` and `subtract_by_key` of two tables, whatever their numbers of partitions,
once the repartition of the smaller one is over. -/
theorem map_operations {Obj : Type} {ctx : Context Obj} (laws : Laws ctx.serdes) :
    (∀ (A B C : Type) (f : A → B → C) (first : List (Bytes × A)) (second : List (Bytes × B)),
      Increasing first → Increasing second →
      MapOp (both f) first second (_merge_intersecting_keys f first second) ∧
      ∀ fuel, first.length + second.length < fuel →
        run_merge_intersecting_keys f fuel first second = some (_merge_intersecting_keys f first second)) ∧
    (∀ (A : Type) (f : A → A → A) (first second : List (Bytes × A)), Increasing first → Increasing second →
      MapOp (either f) first second (_merge_union_keys f first second) ∧
      ∀ fuel, first.length + second.length < fuel →
        run_merge_union_keys f fuel first second = some (_merge_union_keys f first second)) ∧
    (∀ (A B : Type) (first : List (Bytes × A)) (second : List (Bytes × B)),
      Increasing first → Increasing second →
      MapOp without first second (_subtract_by_key first second) ∧
      ∀ fuel, first.length + second.length < fuel →
        run_subtract_by_key fuel first second = some (_subtract_by_key first second)) ∧
    ∀ (t other first second : RollPair) (made : List RollPair) (schedule : List Shuffle.Label),
      Kept ctx t → Kept ctx other → repartition_with ctx t other schedule = some (first,second,made) →
      (∀ f, ∃ result, Combines ctx (both f) t other result ∧ binarySortedMapPartitionsWithIndex ctx t other
        (_merge_intersecting_keys f) schedule = some (made ++ [result])) ∧
      (∀ f, ∃ result, Combines ctx (either f) t other result ∧ binarySortedMapPartitionsWithIndex ctx t other
        (_merge_union_keys f) schedule = some (made ++ [result])) ∧
      ∃ result, Combines ctx without t other result ∧ binarySortedMapPartitionsWithIndex ctx t other
        _subtract_by_key schedule = some (made ++ [result]) := by
  refine ⟨fun A B C f first second increasing increasing' => ⟨intersecting_mapOp f _ _ increasing increasing',
      fun fuel enough => run_merge_intersecting_keys_ends f first second enough⟩,
    fun A f first second increasing increasing' => ⟨union_mapOp f _ _ increasing increasing',
      fun fuel enough => run_merge_union_keys_ends f first second enough⟩,
    fun A B first second increasing increasing' => ⟨subtract_mapOp _ _ increasing increasing',
      fun fuel enough => run_subtract_by_key_ends first second enough⟩,?_⟩
  intro t other first second made schedule kept keptOther done
  refine ⟨fun f => ?_,fun f => ?_,?_⟩
  · obtain ⟨result,ran,keptResult,value⟩ :=
      binary_mapOp laws kept keptOther done rfl (intersecting_mapOp f)
    exact ⟨result,⟨keptResult,value⟩,ran⟩
  · obtain ⟨result,ran,keptResult,value⟩ :=
      binary_mapOp laws kept keptOther done rfl (union_mapOp f)
    exact ⟨result,⟨keptResult,value⟩,ran⟩
  · obtain ⟨result,ran,keptResult,value⟩ :=
      binary_mapOp laws kept keptOther done rfl subtract_mapOp
    exact ⟨result,⟨keptResult,value⟩,ran⟩

def smallBuffers : Context UInt8 := { smallInts with config := ⟨fun k => !k.isEmpty,100,64,100⟩ }

/-- A table of `n` partitions with the key 0 only, in partition `home`. -/
def zeroIn (n home : Nat) (value : UInt8) : RollPair :=
  ⟨n,fun i => if i = home then (∅ : Db).insert [128,4,75,0,46] [128,4,75,value,46] else ∅⟩

private theorem zeroIn_kept {n home : Nat} (value : UInt8) (inside : home < n)
    (at_home : smallBuffers.partitioner [128,4,75,0,46] n = home) :
    Kept smallBuffers (zeroIn n home value) := by
  have only {i : Nat} {k : Bytes} (member : k ∈ (zeroIn n home value).partition i) :
      i = home ∧ k = [128,4,75,0,46] := by
    simp only [zeroIn] at member
    split at member
    · rename_i same
      rw [Std.ExtTreeMap.mem_insert] at member
      exact ⟨same,(member.resolve_right Std.ExtTreeMap.not_mem_empty |> Std.LawfulEqCmp.eq_of_compare).symm⟩
    · exact absurd member Std.ExtTreeMap.not_mem_empty
  refine ⟨⟨by simp only [zeroIn]; omega,?_,?_⟩,?_⟩
  · intro i _ k member
    obtain ⟨rfl,rfl⟩ := only member
    exact at_home
  · intro i _ k member
    exact ⟨0,(only member).2.symm⟩
  · intro i _ k member
    rw [(only member).2]
    rfl

/-- The steps that repartition such a table from one partition to two. -/
def oneToTwo : List Shuffle.Label :=
  let turns : List (Nat × Shuffle.Label) := [(1,.store 0),(1,.store 1),(7,.map 0),(16,.scatter 0),
    (4,.encode 0 0),(10,.encode 0 1),(4,.serve 0 0),(4,.serve 0 1),(8,.store 0),(9,.store 1)]
  turns.flatMap fun (n,a) => List.replicate n a

theorem map_operations_join : ∃ made result, binarySortedMapPartitionsWithIndex smallBuffers (zeroIn 1 0 2)
    (zeroIn 2 1 7) (_merge_intersecting_keys fun a b => a + b) oneToTwo = some (made ++ [result]) ∧
    get smallBuffers result 0 = some 9 := by
  have laws : Laws smallBuffers.serdes := smallInts_laws
  have repartitioned : (repartition_with smallBuffers (zeroIn 1 0 2) (zeroIn 2 1 7) oneToTwo).isSome = true := by
    decide +kernel
  obtain ⟨⟨first,second,made⟩,done⟩ := Option.isSome_iff_exists.mp repartitioned
  have kept : Kept smallBuffers (zeroIn 1 0 2) := zeroIn_kept 2 Nat.one_pos (by decide +kernel)
  have keptOther : Kept smallBuffers (zeroIn 2 1 7) := zeroIn_kept 7 Nat.one_lt_two (by decide +kernel)
  obtain ⟨result,⟨_,value⟩,ran⟩ := ((map_operations laws).2.2.2 (zeroIn 1 0 2) (zeroIn 2 1 7)
    first second made oneToTwo kept keptOther done).1 fun a b => a + b
  refine ⟨made,result,ran,(value 0).trans ?_⟩
  decide +kernel

end Eggroll.Table
