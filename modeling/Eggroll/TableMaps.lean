import Eggroll.ShuffleLog
import Eggroll.TableMerge

/-! Tables as their callers see them: a table of any number of partitions is a map, and what
is done to tables, partition by partition and through shuffles, is done to these maps. -/
namespace Eggroll.Table
open Library Format Store Shuffle

abbrev Entries (Obj : Type) := Obj → Option Obj

def noEntries {Obj : Type} : Entries Obj := fun _ => none

section
variable {Obj : Type}

def reduced (reduce_op : Option (Obj → Obj → Obj)) (values : List Obj) : Option Obj :=
  match reduce_op with
  | none => values.getLast?
  | some op => reduceAll op values

/-- The entries of a map, dealt out to `n` partitions. -/
structure Dealt (m : Entries Obj) (n : Nat) (parts : Nat → List (Obj × Obj)) : Prop where
  distinct : (((List.range n).flatMap parts).map Prod.fst).Nodup
  mem : ∀ k v, (k,v) ∈ (List.range n).flatMap parts ↔ m k = some v

variable [DecidableEq Obj]

/-- What a function of partitions makes of a map: under each key that is taken, the values
that it gives out for some way to deal the entries, in some order. -/
def Makes (takes : Obj → Bool) (m : Entries Obj) (func : Nat → List (Obj × Obj) → List (Obj × Obj))
    (reduce_op : Option (Obj → Obj → Obj)) (made : Entries Obj) : Prop :=
  ∃ n parts, Dealt m n parts ∧ ∀ k, ∃ values,
    values.Perm (valuesOf k ((List.range n).flatMap fun i => func i (parts i))) ∧
      made k = if takes k then reduced reduce_op values else none

end

/-- The operations of `Op`, and those that are besides them in `WrappedRp`. -/
inductive Action (Obj : Type)
  | op (op : Op Obj)
  | delete (t : Nat) (k : Obj)
  | copy_as (t : Nat)
  | map_partitions_with_index (t : Nat) (func : Nat → List (Obj × Obj) → List (Obj × Obj)) (shuffle : Bool)
      (schedule : List Shuffle.Label)

section
variable {Obj : Type} (ctx : Context Obj)

/-- `delete`; LMDB raises for a key that it would not take either. -/
def delete (t : RollPair) (k : Obj) : Option RollPair :=
  let key := ctx.serdes.serialize k
  let i := ctx.partitioner key t.num_partitions
  if ctx.config.accepts key then some { t with partition := Function.update t.partition i ((t.partition i).erase key) }
  else none

/-- `copy_as`, behind `save_as`. -/
def copy_as (t : RollPair) : Option RollPair :=
  map_reduce_partitions_with_index ctx t (fun _ iter => iter) none false t.num_partitions []

/-- One operation. `LmdbAdapter.put` answers a key that LMDB does not take with `False`, which
nobody looks at. -/
def act (tables : List RollPair) : Action Obj → Option (List RollPair)
  | .op (.put t k v) => (tables[t]?).map fun table => tables.set t ((put ctx table k v).getD table)
  | .op op => step ctx tables op
  | .delete t k => (tables[t]?).bind fun table => (delete ctx table k).map fun changed => tables.set t changed
  | .copy_as t => (tables[t]?).bind fun table => (copy_as ctx table).map fun made => tables ++ [made]
  | .map_partitions_with_index t func shuffle schedule =>
    (tables[t]?).bind fun table =>
      (_map_reduce_partitions_with_index ctx table func none shuffle schedule).map fun made => tables ++ [made]

def actions : System (List RollPair) (Action Obj) where
  start tables := tables = []
  step := act ctx

def rekeying : Op Obj → Option (Nat × (Nat → List (Obj × Obj) → List (Obj × Obj)))
  | .map t func => some (t,_lifted_map_to_mpwi func)
  | .flat_map t func => some (t,_lifted_flat_map_to_mpwi func)
  | .map_partitions t func none false _ => some (t,_lifted_map_partitions_to_mpwi func)
  | _ => none

/-- A function that may change keys and is not followed by a shuffle gives out keys of its own
partition only. -/
def homely (tables : List RollPair) : Action Obj → Bool
  | .op op => (rekeying op).all fun (t,f) => homeOn ctx tables t f
  | .map_partitions_with_index t func false _ => homeOn ctx tables t func
  | _ => true

section
variable [DecidableEq Obj]

def Derives (maps : List (Entries Obj)) (t : Nat) (after : List (Entries Obj))
    (made : Entries Obj → Entries Obj → Prop) : Prop :=
  ∃ m new, maps[t]? = some m ∧ after = maps ++ [new] ∧ made m new

def Combined (maps : List (Entries Obj)) (t other : Nat) (after : List (Entries Obj))
    (combine : Option Obj → Option Obj → Option Obj) : Prop :=
  ∃ m m' moved, maps[t]? = some m ∧ maps[other]? = some m' ∧ moved ∈ [[],[m],[m']] ∧
    after = maps ++ moved ++ [fun k => combine (m k) (m' k)]

def Stores (maps : List (Entries Obj)) (t : Nat) (items : List (Obj × Obj)) (after : List (Entries Obj)) : Prop :=
  ∃ m new, maps[t]? = some m ∧ after = maps.set t new ∧
    ∀ k, ∃ first, first <+: valuesOf k items ∧ new k = first.getLast?.or (m k)

def takes (ctx : Context Obj) (k : Obj) : Bool := ctx.config.accepts (ctx.serdes.serialize k)

def Means (maps : List (Entries Obj)) : Action Obj → List (Entries Obj) → Prop
  | .op (.create _), after => after = maps ++ [noEntries]
  | .op (.put t k v), after => ∃ m, maps[t]? = some m ∧
      after = maps.set t (if takes ctx k then Function.update m k (some v) else m)
  | .op (.put_all t items _), after => Stores maps t items after
  | .op (.put_all_values t items _), after => Stores maps t (items.zipIdx.map fun (v,i) => (ctx.serdes.int i,v)) after
  | .op (.map t func), after => Derives maps t after fun m => Makes (takes ctx) m (_lifted_map_to_mpwi func) none
  | .op (.map_values t func), after => Derives maps t after fun m new => ∀ k, new k = (m k).map func
  | .op (.flat_map t func), after => Derives maps t after fun m => Makes (takes ctx) m (_lifted_flat_map_to_mpwi func) none
  | .op (.filter t func), after => Derives maps t after fun m new => ∀ k, new k = (m k).filter (func k)
  | .op (.sample t _), after => Derives maps t after fun m new => ∀ k, new k = none ∨ new k = m k
  | .op (.map_partitions t func reduce_op _ _), after =>
    Derives maps t after fun m => Makes (takes ctx) m (_lifted_map_partitions_to_mpwi func) reduce_op
  | .op (.collapse_partitions t func), after =>
    Derives maps t after fun m => Makes (takes ctx) m (_lifted_apply_partitions_to_mpwi ctx.serdes func) none
  | .op (.repartition t _ _), after => after = maps ∨ Derives maps t after fun m new => new = m
  | .op (.join t other func _), after => Combined maps t other after (both func)
  | .op (.union t other func _), after => Combined maps t other after (either func)
  | .op (.subtract_by_key t other _), after => Combined maps t other after without
  | .delete t k, after => ∃ m, maps[t]? = some m ∧ after = maps.set t (Function.update m k none)
  | .copy_as t, after => Derives maps t after fun m new => new = m
  | .map_partitions_with_index t func _ _, after => Derives maps t after fun m => Makes (takes ctx) m func none

end
end

section
variable {Obj : Type} {ctx : Context Obj}

private theorem serialize_injective (laws : Laws ctx.serdes) : Function.Injective ctx.serdes.serialize :=
  Function.LeftInverse.injective laws.roundtrip

def bytesOf (ctx : Context Obj) (items : List (Obj × Obj)) : List Pair :=
  items.map fun (k,v) => (ctx.serdes.serialize k,ctx.serdes.serialize v)

theorem valuesOf_bytesOf [DecidableEq Obj] (laws : Laws ctx.serdes) (items : List (Obj × Obj)) (x : Obj) :
    valuesOf (ctx.serdes.serialize x) (bytesOf ctx items) = (valuesOf x items).map ctx.serdes.serialize := by
  induction items with
  | nil => rfl
  | cons item rest ih =>
    have same : ctx.serdes.serialize item.1 = ctx.serdes.serialize x ↔ item.1 = x := (serialize_injective laws).eq_iff
    rw [bytesOf,List.map_cons,valuesOf_cons,valuesOf_cons]
    simp only [same]
    split
    · exact congrArg _ ih
    · exact ih

private theorem reduction_bytes (laws : Laws ctx.serdes) (reduce_op : Option (Obj → Obj → Obj)) (values : List Obj) :
    (reduction (_lifted_mpwi_reduce_to_serdes ctx.serdes reduce_op) (values.map ctx.serdes.serialize)).map
      ctx.serdes.deserialize = reduced reduce_op values := by
  cases reduce_op with
  | none =>
    simp only [_lifted_mpwi_reduce_to_serdes,Option.map_none,reduction,reduced,List.getLast?_map,Option.map_map]
    cases values.getLast? with
    | none => rfl
    | some v => exact congrArg some (laws.roundtrip v)
  | some op =>
    simp only [_lifted_mpwi_reduce_to_serdes,Option.map_some,reduction,reduced]
    cases values with
    | nil => rfl
    | cons v rest =>
      simp only [List.map_cons,reduceAll,Option.map_some,Option.some.injEq]
      induction rest generalizing v with
      | nil => exact laws.roundtrip v
      | cons w rest ih =>
        simp only [List.map_cons,List.foldl_cons,laws.roundtrip]
        exact ih (op v w)

def part (ctx : Context Obj) (t : RollPair) (i : Nat) : List (Obj × Obj) :=
  _serdes_wrapped_generator ctx.serdes (t.partition i).toList

theorem Placed.get_of_mem (laws : Laws ctx.serdes) {t : RollPair} (placed : Placed ctx t) {i : Nat}
    (inside : i < t.num_partitions) {k v : Obj} (member : (k,v) ∈ part ctx t i) : get ctx t k = some v := by
  obtain ⟨⟨key,value⟩,listed,same⟩ := List.mem_map.mp member
  obtain ⟨x,rfl⟩ := (placed.atHome inside listed).2
  simp only [laws.roundtrip,Prod.mk.injEq] at same
  obtain ⟨rfl,rfl⟩ := same
  rw [get_eq_found,placed.found_of_mem inside listed]
  rfl

def home (ctx : Context Obj) (t : RollPair) (k : Obj) : Nat :=
  ctx.partitioner (ctx.serdes.serialize k) t.num_partitions

theorem Placed.home_lt {t : RollPair} (placed : Placed ctx t) (k : Obj) : home ctx t k < t.num_partitions :=
  partitioner_lt (ctx.serdes.serialize k) placed.positive

private theorem mem_of_get (laws : Laws ctx.serdes) {t : RollPair} {k v : Obj} (got : get ctx t k = some v) :
    (k,v) ∈ part ctx t (home ctx t k) := by
  rw [get_eq_found,Option.map_eq_some_iff] at got
  obtain ⟨value,stored,rfl⟩ := got
  refine List.mem_map.mpr ⟨(ctx.serdes.serialize k,value),Std.ExtTreeMap.mem_toList_iff_getElem?_eq_some.mpr stored,?_⟩
  exact Prod.ext (laws.roundtrip k) rfl

theorem Placed.dealt (laws : Laws ctx.serdes) {t : RollPair} (placed : Placed ctx t) :
    Dealt (get ctx t) t.num_partitions (part ctx t) := by
  refine ⟨?_,fun k v => ?_⟩
  · have keys : ((List.range t.num_partitions).flatMap (part ctx t)).map Prod.fst =
        ((allPairs t).map Prod.fst).map ctx.serdes.deserialize := by
      simp only [allPairs,part,_serdes_wrapped_generator,List.map_flatMap,List.map_map]
      rfl
    rw [keys]
    refine placed.allPairs_nodup.map_on fun a left b right same => ?_
    have encoded {key : Bytes} (listed : key ∈ (allPairs t).map Prod.fst) : Encoded ctx.serdes key := by
      obtain ⟨pair,member,rfl⟩ := List.mem_map.mp listed
      obtain ⟨i,inside,member⟩ := List.mem_flatMap.mp member
      exact (placed.atHome (List.mem_range.mp inside) member).2
    obtain ⟨x,rfl⟩ := encoded left
    obtain ⟨y,rfl⟩ := encoded right
    rw [laws.roundtrip,laws.roundtrip] at same
    rw [same]
  · rw [List.mem_flatMap]
    constructor
    · rintro ⟨i,inside,member⟩
      exact placed.get_of_mem laws (List.mem_range.mp inside) member
    · intro got
      exact ⟨_,List.mem_range.mpr (placed.home_lt k),mem_of_get laws got⟩

variable [DecidableEq Obj]

private theorem Placed.valuesOf_part (laws : Laws ctx.serdes) {t : RollPair} (placed : Placed ctx t) (k : Obj) :
    valuesOf k (part ctx t (home ctx t k)) = (get ctx t k).toList := by
  have inside := placed.home_lt k
  have distinct : ((part ctx t (home ctx t k)).map Prod.fst).Nodup := by
    have all := (placed.dealt laws).distinct
    rw [List.map_flatMap,List.nodup_flatMap] at all
    exact all.1 _ (List.mem_range.mpr inside)
  cases got : get ctx t k with
  | some v => exact valuesOf_of_nodup distinct (mem_of_get laws got)
  | none =>
    refine valuesOf_eq_nil fun present => ?_
    obtain ⟨⟨k,v⟩,member,rfl⟩ := List.mem_map.mp present
    rw [placed.get_of_mem laws inside member] at got
    cases got

omit [DecidableEq Obj] in
private theorem written_values {accepts : Bytes → Bool} {pairs : List Pair} {db : Db}
    (done : written accepts pairs = .ok db) (k : Bytes) :
    db[k]? = (valuesOf k pairs).getLast? ∧ (k ∈ db → accepts k = true) := by
  suffices ∀ before : Db, pairs.foldlM (fun db pair => Store.put accepts db pair.1 pair.2) before = .ok db →
      db[k]? = (valuesOf k pairs).getLast?.or before[k]? ∧ (k ∈ db → k ∈ before ∨ accepts k = true) by
    obtain ⟨values,accepted⟩ := this ∅ done
    rw [Std.ExtTreeMap.getElem?_empty,Option.or_none] at values
    exact ⟨values,fun member => (accepted member).resolve_left Std.ExtTreeMap.not_mem_empty⟩
  clear done
  induction pairs with
  | nil =>
    intro before done
    cases done
    exact ⟨rfl,.inl⟩
  | cons pair rest ih =>
    intro before done
    rw [List.foldlM_cons] at done
    cases first : Store.put accepts before pair.1 pair.2 with
    | error e => simp [first,bind,Except.bind] at done
    | ok middle =>
      simp only [first,bind,Except.bind] at done
      obtain ⟨values,accepted⟩ := ih middle done
      refine ⟨?_,fun member => ?_⟩
      · rw [values,put_get first,valuesOf_cons]
        by_cases same : pair.1 = k
        · simp only [same,if_true]
          cases valuesOf k rest using List.reverseRecOn with
          | nil => rfl
          | append_singleton before v => rw [← List.cons_append,List.getLast?_concat,List.getLast?_concat]; rfl
        · simp [same]
      · obtain middle_ | known := accepted member
        · have stored : store accepts none before pair = .ok middle := first
          obtain rfl | old := store_mem stored middle_
          · refine .inr ?_
            unfold Store.put at first
            split at first
            · assumption
            · cases first
          · exact .inl old
        · exact .inr known

def AtHomes (ctx : Context Obj) (t : RollPair) (f : Nat → List (Obj × Obj) → List (Obj × Obj)) : Prop :=
  ∀ i < t.num_partitions, ∀ pair ∈ _lifted_map_to_io_serdes ctx.serdes f i (t.partition i).toList,
    ctx.partitioner pair.1 t.num_partitions = i

private theorem unshuffled_get (laws : Laws ctx.serdes) {t made : RollPair} (kept : Kept ctx t)
    {f : Nat → List (Obj × Obj) → List (Obj × Obj)} (homes : AtHomes ctx t f)
    (done : _map_reduce_partitions_with_index ctx t f none false [] = some made) :
    Kept ctx made ∧ ∀ k, get ctx made k = (valuesOf k (f (home ctx t k) (part ctx t (home ctx t k)))).getLast? := by
  have placed := unshuffled_placed kept.toPlaced homes done
  simp only [_map_reduce_partitions_with_index,map_reduce_partitions_with_index,Option.isSome_none,
    Bool.and_false,Bool.false_eq_true,if_false,if_true] at done
  obtain ⟨size,results⟩ := gathered_spec done
  refine ⟨⟨placed,fun i inside k member => ?_⟩,fun k => ?_⟩
  · exact (written_values (results i (size ▸ inside)) k).2 member
  · have stored := (written_values (results _ (kept.toPlaced.home_lt k)) (ctx.serdes.serialize k)).1
    have values := valuesOf_bytesOf laws (f (home ctx t k) (part ctx t (home ctx t k))) k
    have here : get ctx made k =
        (made.partition (home ctx t k))[ctx.serdes.serialize k]?.map ctx.serdes.deserialize := by
      rw [get_eq_found,found,size]
      rfl
    rw [here,stored]
    refine (congrArg (fun values => values.getLast?.map ctx.serdes.deserialize) values).trans ?_
    rw [List.getLast?_map,Option.map_map]
    cases (valuesOf k (f (home ctx t k) (part ctx t (home ctx t k)))).getLast? with
    | none => rfl
    | some v => exact congrArg some (laws.roundtrip v)

private theorem valuesOf_flatMap_only {parts : List Nat} (distinct : parts.Nodup) {i : Nat} (member : i ∈ parts) {k : Obj}
    {f : Nat → List (Obj × Obj)} (others : ∀ j ∈ parts, j ≠ i → valuesOf k (f j) = []) :
    valuesOf k (parts.flatMap f) = valuesOf k (f i) := by
  induction parts with
  | nil => contradiction
  | cons j rest ih =>
    rw [List.nodup_cons] at distinct
    rw [List.flatMap_cons,valuesOf_append]
    obtain rfl | later := List.mem_cons.mp member
    · have none_else : valuesOf k (rest.flatMap f) = [] := by
        refine valuesOf_eq_nil fun present => ?_
        obtain ⟨⟨k,v⟩,emitted,rfl⟩ := List.mem_map.mp present
        obtain ⟨j,inside,emitted⟩ := List.mem_flatMap.mp emitted
        have nothing := others j (List.mem_cons_of_mem _ inside) fun same => distinct.1 (same ▸ inside)
        exact List.not_mem_nil (nothing ▸ mem_valuesOf.mpr emitted)
      rw [none_else,List.append_nil]
    · have other : j ≠ i := fun same => distinct.1 (same ▸ later)
      rw [others j List.mem_cons_self other,List.nil_append]
      exact ih distinct.2 later fun j inside => others j (List.mem_cons_of_mem _ inside)

theorem AtHomes.valuesOf {t : RollPair} (placed : Placed ctx t) {f : Nat → List (Obj × Obj) → List (Obj × Obj)}
    (homes : AtHomes ctx t f) (k : Obj) :
    Library.valuesOf k ((List.range t.num_partitions).flatMap fun i => f i (part ctx t i)) =
      Library.valuesOf k (f (home ctx t k) (part ctx t (home ctx t k))) := by
  refine valuesOf_flatMap_only (f := fun i => f i (part ctx t i)) List.nodup_range
    (List.mem_range.mpr (placed.home_lt k)) fun i inside other => valuesOf_eq_nil fun present => ?_
  obtain ⟨pair,emitted,rfl⟩ := List.mem_map.mp present
  exact other (homes i (List.mem_range.mp inside) _ (List.mem_map.mpr ⟨pair,emitted,rfl⟩)).symm

omit [DecidableEq Obj] in
private theorem Kept.takes_of_get {t : RollPair} (kept : Kept ctx t) {k v : Obj} (got : get ctx t k = some v) :
    takes ctx k = true := by
  rw [get_eq_found,Option.map_eq_some_iff] at got
  obtain ⟨value,stored,_⟩ := got
  refine kept.accepted _ (kept.toPlaced.home_lt k) _ ?_
  rw [Std.ExtTreeMap.mem_iff_isSome_getElem?]
  exact (congrArg Option.isSome stored).trans rfl

private theorem unshuffled_makes (laws : Laws ctx.serdes) {t made : RollPair} (kept : Kept ctx t)
    {f : Nat → List (Obj × Obj) → List (Obj × Obj)} (homes : AtHomes ctx t f)
    (done : _map_reduce_partitions_with_index ctx t f none false [] = some made) :
    Kept ctx made ∧ Makes (takes ctx) (get ctx t) f none (get ctx made) := by
  obtain ⟨keptMade,values⟩ := unshuffled_get laws kept homes done
  refine ⟨keptMade,_,_,kept.toPlaced.dealt laws,fun k => ⟨_,.refl _,?_⟩⟩
  rw [homes.valuesOf kept.toPlaced]
  split
  · exact values k
  · rename_i refused
    cases got : get ctx made k with
    | none => rfl
    | some v => exact absurd (keptMade.takes_of_get got) refused

omit [DecidableEq Obj] in
private theorem KeepsKeys.atHomes (laws : Laws ctx.serdes) {t : RollPair} (kept : Kept ctx t)
    {f : Nat → List (Obj × Obj) → List (Obj × Obj)} (keeps : KeepsKeys f) : AtHomes ctx t f :=
  fun _ inside _ member => keeping_home laws kept.toPlaced keeps inside member

omit [DecidableEq Obj] in
private theorem getLast?_toList (value : Option Obj) : value.toList.getLast? = value := by cases value <;> rfl

private theorem valuesOf_map_value (func : Obj → Obj) (k : Obj) (items : List (Obj × Obj)) :
    valuesOf k (_lifted_map_values_to_mpwi func 0 items) = (valuesOf k items).map func := by
  induction items with
  | nil => rfl
  | cons item rest ih =>
    rw [_lifted_map_values_to_mpwi] at ih ⊢
    rw [List.map_cons,valuesOf_cons,valuesOf_cons,ih]
    by_cases same : item.1 = k <;> simp [same]

private theorem map_values_get (laws : Laws ctx.serdes) {t made : RollPair} (kept : Kept ctx t) (func : Obj → Obj)
    (done : _map_reduce_partitions_with_index ctx t (_lifted_map_values_to_mpwi func) none false [] = some made) :
    Kept ctx made ∧ ∀ k, get ctx made k = (get ctx t k).map func := by
  obtain ⟨keptMade,values⟩ := unshuffled_get laws kept ((map_values_keeps func).atHomes laws kept) done
  refine ⟨keptMade,fun k => ?_⟩
  have mapped := valuesOf_map_value func k (part ctx t (home ctx t k))
  rw [kept.toPlaced.valuesOf_part laws] at mapped
  rw [values]
  refine (congrArg List.getLast? mapped).trans ?_
  rw [List.getLast?_map,getLast?_toList]

private theorem valuesOf_filtered (func : Obj → Obj → Bool) (k : Obj) (items : List (Obj × Obj)) :
    valuesOf k (_lifted_filter func 0 items) = (valuesOf k items).filter (func k) := by
  induction items with
  | nil => rfl
  | cons item rest ih =>
    rw [_lifted_filter] at ih ⊢
    rw [List.filter_cons,valuesOf_cons]
    by_cases same : item.1 = k
    · subst same
      cases passes : func item.1 item.2 <;> simp [passes,valuesOf_cons,ih]
    · cases passes : func item.1 item.2 <;> simp [passes,same,valuesOf_cons,ih]

private theorem filter_get (laws : Laws ctx.serdes) {t made : RollPair} (kept : Kept ctx t) (func : Obj → Obj → Bool)
    (done : _map_reduce_partitions_with_index ctx t (_lifted_filter func) none false [] = some made) :
    Kept ctx made ∧ ∀ k, get ctx made k = (get ctx t k).filter (func k) := by
  obtain ⟨keptMade,values⟩ := unshuffled_get laws kept ((filter_keeps func).atHomes laws kept) done
  refine ⟨keptMade,fun k => ?_⟩
  have passed := valuesOf_filtered func k (part ctx t (home ctx t k))
  rw [kept.toPlaced.valuesOf_part laws] at passed
  rw [values]
  refine (congrArg List.getLast? passed).trans ?_
  cases get ctx t k with
  | none => rfl
  | some v => cases passes : func k v <;> simp [passes,Option.filter]

omit [DecidableEq Obj] in
private theorem sample_sublist (draws : Nat → Nat → Bool) (i : Nat) (items : List (Obj × Obj)) :
    (_lifted_sample_to_mpwi draws i items).Sublist items := by
  have kept := (List.filter_sublist (p := fun item => draws i item.2) (l := items.zipIdx)).map Prod.fst
  rwa [List.zipIdx_map_fst] at kept

private theorem sample_get (laws : Laws ctx.serdes) {t made : RollPair} (kept : Kept ctx t) (draws : Nat → Nat → Bool)
    (done : _map_reduce_partitions_with_index ctx t (_lifted_sample_to_mpwi draws) none false [] = some made) :
    Kept ctx made ∧ ∀ k, get ctx made k = none ∨ get ctx made k = get ctx t k := by
  obtain ⟨keptMade,values⟩ := unshuffled_get laws kept ((sample_keeps draws).atHomes laws kept) done
  refine ⟨keptMade,fun k => ?_⟩
  have fewer : (valuesOf k (_lifted_sample_to_mpwi draws (home ctx t k) (part ctx t (home ctx t k)))).Sublist
      (get ctx t k).toList := by
    rw [← kept.toPlaced.valuesOf_part laws]
    exact ((sample_sublist draws _ _).filter _).map _
  rw [values]
  cases stored : get ctx t k with
  | none =>
    rw [stored,Option.toList_none,List.sublist_nil] at fewer
    rw [fewer]
    exact .inl rfl
  | some v =>
    rw [stored,Option.toList_some,List.sublist_singleton] at fewer
    obtain nothing | all := fewer
    · exact .inl (by rw [nothing]; rfl)
    · exact .inr (by rw [all]; rfl)

omit [DecidableEq Obj] in
private theorem objects_of_bytes (laws : Laws ctx.serdes) {bytes : List Bytes} {objects : List Obj}
    (perm : bytes.Perm (objects.map ctx.serdes.serialize)) :
    (bytes.map ctx.serdes.deserialize).Perm objects ∧
      (bytes.map ctx.serdes.deserialize).map ctx.serdes.serialize = bytes := by
  constructor
  · have back := perm.map ctx.serdes.deserialize
    rw [List.map_map] at back
    have same : ctx.serdes.deserialize ∘ ctx.serdes.serialize = id := funext laws.roundtrip
    rwa [same,List.map_id] at back
  · rw [List.map_map]
    conv_rhs => rw [← List.map_id bytes]
    refine List.map_congr_left fun b member => ?_
    obtain ⟨x,_,rfl⟩ := List.mem_map.mp (perm.subset member)
    exact congrArg ctx.serdes.serialize (laws.roundtrip x)

def shuffleJob (ctx : Context Obj) (t : RollPair) (f : Nat → List (Obj × Obj) → List (Obj × Obj))
    (reduce_op : Option (Obj → Obj → Obj)) : Job :=
  mapReduce ctx.config t.num_partitions t.num_partitions t.partition
    (fun i iter => .iterable (_lifted_map_to_io_serdes ctx.serdes f i iter)) ctx.partitioner
    (_lifted_mpwi_reduce_to_serdes ctx.serdes reduce_op)

private theorem shuffled_values (laws : Laws ctx.serdes) {t : RollPair} (kept : Kept ctx t)
    {f : Nat → List (Obj × Obj) → List (Obj × Obj)} {reduce_op : Option (Obj → Obj → Obj)} {s : State}
    (reached : (shuffleJob ctx t f reduce_op).system.Reachable s) (finished : (shuffleJob ctx t f reduce_op).Finished s)
    (k : Obj) : ∃ values : List Obj, values.Perm (valuesOf k ((List.range t.num_partitions).flatMap fun i => f i (part ctx t i))) ∧
      valuesOf (ctx.serdes.serialize k) ((s.sink (home ctx t k)).log.map Prod.snd) = values.map ctx.serdes.serialize := by
  have nonempty : KeysNonempty (shuffleJob ctx t f reduce_op) := by
    intro p _ pair listed
    obtain ⟨x,same⟩ := lifted_encoded f p _ listed
    exact same ▸ laws.nonempty x
  have arrived := (reachable_invariant nonempty reached).arrived finished (kept.toPlaced.home_lt k)
    (ctx.serdes.serialize k)
  have all : valuesOf (ctx.serdes.serialize k) (shuffleJob ctx t f reduce_op).mapped =
      (valuesOf k ((List.range t.num_partitions).flatMap fun i => f i (part ctx t i))).map ctx.serdes.serialize := by
    rw [← valuesOf_bytesOf laws,bytesOf,List.map_flatMap]
    rfl
  obtain ⟨perm,back⟩ := objects_of_bytes laws (arrived.trans (.of_eq ((if_pos rfl).trans all)))
  exact ⟨_,perm,back.symm⟩

private theorem shuffled_makes (laws : Laws ctx.serdes) {t made : RollPair} (kept : Kept ctx t)
    {f : Nat → List (Obj × Obj) → List (Obj × Obj)} {reduce_op : Option (Obj → Obj → Obj)} {schedule : List Shuffle.Label}
    (done : _map_reduce_partitions_with_index ctx t f reduce_op true schedule = some made) :
    Kept ctx made ∧ Makes (takes ctx) (get ctx t) f reduce_op (get ctx made) := by
  have placed := shuffled_placed laws.nonempty kept.toPlaced done
  simp only [_map_reduce_partitions_with_index,map_reduce_partitions_with_index,Bool.not_true,Bool.false_and,
    Bool.false_eq_true,if_false,if_true,run_shuffle,Option.bind_eq_some_iff,Option.ite_none_right_eq_some,
    Option.some.injEq] at done
  obtain ⟨s,run,finished,rfl⟩ := done
  have reached : (shuffleJob ctx t f reduce_op).system.Reachable s := ⟨_,schedule,rfl,run⟩
  refine ⟨⟨placed,fun j _ k member => ?_⟩,_,_,kept.toPlaced.dealt laws,fun k => ?_⟩
  · exact ((reachable_logged reached j).accepts_of_mem member).resolve_right Std.ExtTreeMap.not_mem_empty
  · obtain ⟨values,perm,bytes⟩ := shuffled_values laws kept reached finished k
    refine ⟨values,perm,?_⟩
    have stored := (reachable_logged reached (home ctx t k)).value_of (ctx.serdes.serialize k)
    have here : get ctx ⟨t.num_partitions,fun j => (s.sink j).db⟩ k =
        ((s.sink (home ctx t k)).db[ctx.serdes.serialize k]?).map ctx.serdes.deserialize := rfl
    refine here.trans ?_
    rw [stored,bytes]
    by_cases taken : takes ctx k = true
    · rw [if_pos taken]
      refine (congrArg (Option.map ctx.serdes.deserialize) ?_).trans (reduction_bytes laws reduce_op values)
      exact congrArg _ (if_pos taken)
    · rw [if_neg taken]
      refine (congrArg (Option.map ctx.serdes.deserialize) ?_).trans (Option.map_none _)
      refine (congrArg _ (if_neg taken)).trans ?_
      cases reduce_op <;> rfl

def replaced (ctx : Context Obj) (t : RollPair) (k : Obj) (db : Db) : RollPair :=
  { t with partition := Function.update t.partition (home ctx t k) db }

omit [DecidableEq Obj] in
private theorem replaced_kept {t : RollPair} (kept : Kept ctx t) {k : Obj} {db : Db}
    (known : ∀ key ∈ db, key = ctx.serdes.serialize k ∧ takes ctx k = true ∨ key ∈ t.partition (home ctx t k)) :
    Kept ctx (replaced ctx t k db) := by
  have at_home {i : Nat} (inside : i < t.num_partitions) {key : Bytes} (member : key ∈ (replaced ctx t k db).partition i) :
      AtHome ctx t.num_partitions i key ∧ ctx.config.accepts key = true := by
    simp only [replaced,Function.update_apply] at member
    split at member
    · rename_i same
      subst same
      obtain ⟨rfl,taken⟩ | old := known key member
      · exact ⟨⟨rfl,k,rfl⟩,taken⟩
      · exact ⟨⟨kept.inPlace _ inside key old,kept.encoded _ inside key old⟩,kept.accepted _ inside key old⟩
    · exact ⟨⟨kept.inPlace i inside key member,kept.encoded i inside key member⟩,kept.accepted i inside key member⟩
  exact ⟨⟨kept.positive,fun i inside key member => (at_home inside member).1.1,
    fun i inside key member => (at_home inside member).1.2⟩,fun i inside key member => (at_home inside member).2⟩

private theorem replaced_get (laws : Laws ctx.serdes) (t : RollPair) {k : Obj} {db : Db}
    (others : ∀ key, ctx.serdes.serialize k ≠ key → db[key]? = (t.partition (home ctx t k))[key]?) :
    get ctx (replaced ctx t k db) =
      Function.update (get ctx t) k (db[ctx.serdes.serialize k]?.map ctx.serdes.deserialize) := by
  funext x
  have here : get ctx (replaced ctx t k db) x = (Function.update t.partition (home ctx t k) db
      (home ctx t x))[ctx.serdes.serialize x]?.map ctx.serdes.deserialize := rfl
  rw [here,Function.update_apply,Function.update_apply]
  by_cases same : x = k
  · subst same
    rw [if_pos rfl,if_pos rfl]
  · rw [if_neg same]
    split
    · rename_i there
      rw [others _ fun equal => same (serialize_injective laws equal).symm,← there]
      rfl
    · rfl

private theorem put_get_table (laws : Laws ctx.serdes) {t changed : RollPair} (kept : Kept ctx t) {k v : Obj}
    (done : put ctx t k v = some changed) :
    takes ctx k = true ∧ Kept ctx changed ∧ get ctx changed = Function.update (get ctx t) k (some v) := by
  unfold put at done
  simp only at done
  split at done
  · contradiction
  · rename_i db stored
    cases done
    have taken : takes ctx k = true := by
      unfold Store.put at stored
      split at stored
      · assumption
      · cases stored
    refine ⟨taken,replaced_kept (k := k) kept fun key member => ?_,?_⟩
    · have one : store ctx.config.accepts none _ (ctx.serdes.serialize k,ctx.serdes.serialize v) = .ok db := stored
      exact (store_mem one member).imp_left fun same => ⟨same,taken⟩
    · refine (replaced_get (k := k) laws t fun key other => ?_).trans ?_
      · rw [put_get stored,if_neg other]
        rfl
      · rw [put_get stored,if_pos rfl,Option.map_some,laws.roundtrip]

omit [DecidableEq Obj] in
private theorem put_refused {t : RollPair} {k v : Obj} (refused : put ctx t k v = none) : takes ctx k = false := by
  refine Bool.eq_false_iff.mpr fun taken => ?_
  have stored : Store.put ctx.config.accepts (t.partition (home ctx t k)) (ctx.serdes.serialize k)
      (ctx.serdes.serialize v) = .ok _ := if_pos taken
  unfold put at refused
  simp only at refused
  split at refused
  · rename_i raised
    cases stored.symm.trans raised
  · cases refused

private theorem delete_get (laws : Laws ctx.serdes) {t changed : RollPair} (kept : Kept ctx t) {k : Obj}
    (done : delete ctx t k = some changed) :
    Kept ctx changed ∧ get ctx changed = Function.update (get ctx t) k none := by
  simp only [delete,Option.ite_none_right_eq_some,Option.some.injEq] at done
  obtain ⟨_,rfl⟩ := done
  refine ⟨replaced_kept (k := k) kept fun key member => .inr (Std.ExtTreeMap.mem_of_mem_erase member),?_⟩
  refine (replaced_get (k := k) laws t fun key other => ?_).trans ?_
  · rw [Std.ExtTreeMap.getElem?_erase,if_neg (by simpa using other)]
    rfl
  · rw [Std.ExtTreeMap.getElem?_erase_self]
    rfl

omit [DecidableEq Obj] in
private theorem put_all_logged (laws : Laws ctx.serdes) {t : RollPair} {items : List (Obj × Obj)} {s : State}
    (reached : (putAllJob ctx t (bytesOf ctx items)).system.Reachable s) {j : Nat} (within : j < t.num_partitions) :
    (s.sink j).log.map Prod.snd <+: (bytesOf ctx items).filter fun pair => ctx.partitioner pair.1 t.num_partitions = j := by
  have nonempty : KeysNonempty (putAllJob ctx t (bytesOf ctx items)) := by
    intro p _ pair member
    obtain ⟨item,_,rfl⟩ := List.mem_map.mp member
    exact laws.nonempty item.1
  have holds := reachable_invariant nonempty reached
  have only : valuesOf 0 (s.sink j).log = (s.sink j).log.map Prod.snd := by
    rw [valuesOf,List.filter_eq_self.mpr]
    intro item member
    have inside : item.1 < 1 := (holds.sinks j within).known item (List.mem_append_left _ member)
    simpa using inside
  have conserved := holds.conserved 0 Nat.one_pos j within
  rw [Sink.share,only,List.append_assoc] at conserved
  exact ⟨_,conserved⟩

omit [DecidableEq Obj] in
private theorem valuesOf_prefix (k : Bytes) {first second : List Pair} (early : first <+: second) :
    valuesOf k first <+: valuesOf k second := (early.filter _).map _

/-- What `put_all` has made of a table at any moment, key by key: the first values that have
arrived under it are stored one after the other. -/
theorem put_all_values (laws : Laws ctx.serdes) {t : RollPair} (kept : Kept ctx t) {items : List (Obj × Obj)}
    {s : State} (reached : (putAllJob ctx t (bytesOf ctx items)).system.Reachable s) (k : Obj) :
    ∃ first, first <+: valuesOf k items ∧
      valuesOf (ctx.serdes.serialize k) ((s.sink (home ctx t k)).log.map Prod.snd) = first.map ctx.serdes.serialize ∧
      get ctx ⟨t.num_partitions,fun j => (s.sink j).db⟩ k = first.getLast?.or (get ctx t k) := by
  have logged := reachable_logged reached (home ctx t k)
  have arrived : valuesOf (ctx.serdes.serialize k) ((s.sink (home ctx t k)).log.map Prod.snd) <+:
      (valuesOf k items).map ctx.serdes.serialize := by
    have mine := (valuesOf_filter (ctx.serdes.serialize k) (bytesOf ctx items) fun key =>
      decide (ctx.partitioner key t.num_partitions = home ctx t k)).trans (if_pos (decide_eq_true rfl))
    rw [valuesOf_bytesOf laws] at mine
    exact mine ▸ valuesOf_prefix _ (put_all_logged laws reached (kept.toPlaced.home_lt k))
  obtain ⟨first,early,values⟩ := List.prefix_map_iff.mp arrived
  refine ⟨first,early,values,?_⟩
  have here : get ctx ⟨t.num_partitions,fun j => (s.sink j).db⟩ k =
      ((s.sink (home ctx t k)).db[ctx.serdes.serialize k]?).map ctx.serdes.deserialize := rfl
  have all : ((s.sink (home ctx t k)).log.map Prod.snd).filter (fun pair => ctx.config.accepts pair.1) =
      (s.sink (home ctx t k)).log.map Prod.snd := by
    rw [List.filter_eq_self]
    intro pair member
    obtain ⟨item,listed,rfl⟩ := List.mem_map.mp member
    exact logged.accepted rfl item listed
  have stored := logged.value (ctx.serdes.serialize k)
  simp only [putAllJob,all,values,reduction] at stored
  rw [here,stored,List.getLast?_append,List.getLast?_map,getLast?_toList,Option.map_or,Option.map_map]
  have back : ctx.serdes.deserialize ∘ ctx.serdes.serialize = id := funext laws.roundtrip
  rw [back,Option.map_id_fun,id_eq]
  rfl

theorem put_all_get (laws : Laws ctx.serdes) {t changed : RollPair} (kept : Kept ctx t) {items : List (Obj × Obj)}
    {schedule : List Shuffle.Label} (done : put_all ctx t items schedule = some changed) :
    Kept ctx changed ∧
      ∀ k, ∃ first, first <+: valuesOf k items ∧ get ctx changed k = first.getLast?.or (get ctx t k) := by
  have placed := put_all_placed laws.nonempty kept.toPlaced done
  simp only [put_all,Option.map_eq_some_iff] at done
  obtain ⟨s,run,rfl⟩ := done
  have reached : (putAllJob ctx t (bytesOf ctx items)).system.Reachable s := ⟨_,schedule,rfl,run⟩
  refine ⟨⟨placed,fun j inside k member => ?_⟩,fun k => ?_⟩
  · exact ((reachable_logged reached j).accepts_of_mem member).elim id (kept.accepted j inside k)
  · obtain ⟨first,early,_,value⟩ := put_all_values laws kept reached k
    exact ⟨first,early,value⟩

omit [DecidableEq Obj] in
private theorem get_eq_of_found {t made : RollPair} (same : ∀ k, found ctx made k = found ctx t k) :
    get ctx made = get ctx t := by
  funext k
  rw [get_eq_found,get_eq_found,same]

omit [DecidableEq Obj] in
private theorem copy_as_kept {t made : RollPair} (kept : Kept ctx t) (done : copy_as ctx t = some made) :
    Kept ctx made ∧ get ctx made = get ctx t := by
  simp only [copy_as,map_reduce_partitions_with_index,Bool.false_eq_true,if_false,if_true] at done
  obtain ⟨size,results⟩ := gathered_spec done
  have placed := gathered_placed kept.positive (fun i inside pair member => kept.atHome inside member) done
  have same {i : Nat} (inside : i < t.num_partitions) (k : Bytes) : (made.partition i)[k]? = (t.partition i)[k]? :=
    (written_lookup (increasing_toList _) (results i inside) k).trans (lookup_toList _ k)
  refine ⟨⟨placed,fun i inside k member => ?_⟩,get_eq_of_found fun k => ?_⟩
  · rw [size] at inside
    rw [Std.ExtTreeMap.mem_iff_isSome_getElem?,same inside,← Std.ExtTreeMap.mem_iff_isSome_getElem?] at member
    exact kept.accepted i inside k member
  · rw [found,found,size]
    exact same (partitioner_lt k kept.positive) k

omit [DecidableEq Obj] in
private theorem repartition_get (laws : Laws ctx.serdes) {t made : RollPair} (kept : Kept ctx t) {n : Nat} (positive : 0 < n)
    {schedule : List Shuffle.Label} (done : repartition ctx t n schedule = some made) :
    Kept ctx made ∧ get ctx made = get ctx t :=
  (repartition_kept laws kept positive done).imp_right get_eq_of_found

omit [DecidableEq Obj] in
private theorem repartition_with_made (laws : Laws ctx.serdes) {t other first second : RollPair} {made : List RollPair}
    (kept : Kept ctx t) (keptOther : Kept ctx other) {schedule : List Shuffle.Label}
    (done : repartition_with ctx t other schedule = some (first,second,made)) :
    (∀ table ∈ made, Kept ctx table) ∧ made.map (get ctx) ∈ [[],[get ctx t],[get ctx other]] := by
  unfold repartition_with at done
  split at done
  · cases done
    exact ⟨fun _ member => by simp at member,by simp⟩
  · split at done
    · simp only [Option.map_eq_some_iff,Prod.mk.injEq] at done
      obtain ⟨table,again,rfl,rfl,rfl⟩ := done
      obtain ⟨keptTable,same⟩ := repartition_kept laws keptOther kept.positive again
      refine ⟨fun _ member => List.mem_singleton.mp member ▸ keptTable,?_⟩
      simp [get_eq_of_found same]
    · simp only [Option.map_eq_some_iff,Prod.mk.injEq] at done
      obtain ⟨table,again,rfl,rfl,rfl⟩ := done
      obtain ⟨keptTable,same⟩ := repartition_kept laws kept keptOther.positive again
      refine ⟨fun _ member => List.mem_singleton.mp member ▸ keptTable,?_⟩
      simp [get_eq_of_found same]

def AllKept (ctx : Context Obj) (tables : List RollPair) : Prop := ∀ t ∈ tables, Kept ctx t

omit [DecidableEq Obj] in
theorem AllKept.append {tables made : List RollPair} (kept : AllKept ctx tables)
    (new : ∀ t ∈ made, Kept ctx t) : AllKept ctx (tables ++ made) :=
  fun t member => (List.mem_append.mp member).elim (kept t) (new t)

omit [DecidableEq Obj] in
theorem AllKept.set {tables : List RollPair} (kept : AllKept ctx tables) {changed : RollPair}
    (new : Kept ctx changed) (i : Nat) : AllKept ctx (tables.set i changed) :=
  fun t member => (List.mem_or_eq_of_mem_set member).elim (kept t) fun same => same ▸ new

omit [DecidableEq Obj] in
theorem AllKept.get {tables : List RollPair} (kept : AllKept ctx tables) {i : Nat} {t : RollPair}
    (known : tables[i]? = some t) : Kept ctx t := kept t (List.mem_of_getElem? known)

def Follows (ctx : Context Obj) (tables : List RollPair) (action : Action Obj) (after : List RollPair) : Prop :=
  AllKept ctx after ∧ Means ctx (tables.map (Table.get ctx)) action (after.map (Table.get ctx))

omit [DecidableEq Obj] in
private theorem derives_of {tables after : List RollPair} (kept : AllKept ctx tables) {i : Nat}
    {operation : RollPair → Option RollPair} {holds : Entries Obj → Entries Obj → Prop}
    (meaning : ∀ t made, Kept ctx t → operation t = some made →
      Kept ctx made ∧ holds (Table.get ctx t) (Table.get ctx made))
    (stepped : ((tables[i]?).bind fun table => (operation table).map fun made => tables ++ [made]) = some after) :
    AllKept ctx after ∧ Derives (tables.map (Table.get ctx)) i (after.map (Table.get ctx)) holds := by
  simp only [Option.bind_eq_some_iff,Option.map_eq_some_iff] at stepped
  obtain ⟨t,known,made,done,rfl⟩ := stepped
  obtain ⟨keptMade,holds⟩ := meaning t made (kept.get known) done
  refine ⟨kept.append fun _ member => List.mem_singleton.mp member ▸ keptMade,Table.get ctx t,Table.get ctx made,?_,?_,holds⟩
  · rw [List.getElem?_map,known]
    rfl
  · rw [List.map_append]
    rfl

omit [DecidableEq Obj] in
private theorem combined_of (laws : Laws ctx.serdes) {tables after : List RollPair} (kept : AllKept ctx tables) {t other : Nat}
    {f : List (Bytes × Obj) → List (Bytes × Obj) → List (Bytes × Obj)}
    {combine : Option Obj → Option Obj → Option Obj} (quiet : combine none none = none)
    (op : ∀ first second, Increasing first → Increasing second → MapOp combine first second (f first second))
    {schedule : List Shuffle.Label} (stepped : binary ctx tables t other f schedule = some after) :
    AllKept ctx after ∧ Combined (tables.map (Table.get ctx)) t other (after.map (Table.get ctx)) combine := by
  unfold binary at stepped
  split at stepped
  · rename_i first second known knownOther
    simp only [Option.map_eq_some_iff] at stepped
    obtain ⟨made,done,rfl⟩ := stepped
    obtain ⟨⟨left,right,moved⟩,again⟩ : ∃ handed, repartition_with ctx first second schedule = some handed := by
      cases again : repartition_with ctx first second schedule with
      | some handed => exact ⟨handed,rfl⟩
      | none => simp [binarySortedMapPartitionsWithIndex,again] at done
    obtain ⟨result,ran,keptResult,value⟩ := binary_mapOp laws (kept.get known) (kept.get knownOther) again quiet op
    obtain ⟨keptMoved,those⟩ := repartition_with_made laws (kept.get known) (kept.get knownOther) again
    cases ran.symm.trans done
    refine ⟨kept.append fun table member => ?_,Table.get ctx first,Table.get ctx second,moved.map (Table.get ctx),?_,?_,
      those,?_⟩
    · rcases List.mem_append.mp member with old | new
      · exact keptMoved table old
      · exact List.mem_singleton.mp new ▸ keptResult
    · rw [List.getElem?_map,known]
      rfl
    · rw [List.getElem?_map,knownOther]
      rfl
    · rw [List.map_append,List.map_append,List.append_assoc]
      exact congrArg (fun made => tables.map (Table.get ctx) ++ (moved.map (Table.get ctx) ++ [made])) (funext value)
  · contradiction

private theorem rekeyed_follows (laws : Laws ctx.serdes) {tables after : List RollPair} (kept : AllKept ctx tables) {i : Nat}
    {f : Nat → List (Obj × Obj) → List (Obj × Obj)} (homes : ∀ t, tables[i]? = some t → AtHomes ctx t f)
    (stepped : ((tables[i]?).bind fun table =>
      (_map_reduce_partitions_with_index ctx table f none false []).map fun made => tables ++ [made]) = some after) :
    AllKept ctx after ∧
      Derives (tables.map (Table.get ctx)) i (after.map (Table.get ctx)) fun m => Makes (takes ctx) m f none := by
  simp only [Option.bind_eq_some_iff,Option.map_eq_some_iff] at stepped
  obtain ⟨t,known,made,done,rfl⟩ := stepped
  obtain ⟨keptMade,makes⟩ := unshuffled_makes laws (kept.get known) (homes t known) done
  refine ⟨kept.append fun _ member => List.mem_singleton.mp member ▸ keptMade,Table.get ctx t,Table.get ctx made,?_,?_,makes⟩
  · rw [List.getElem?_map,known]
    rfl
  · rw [List.map_append]
    rfl

private theorem put_all_follows (laws : Laws ctx.serdes) {tables after : List RollPair} (kept : AllKept ctx tables) {i : Nat}
    {items : List (Obj × Obj)} {schedule : List Shuffle.Label}
    (stepped : ((tables[i]?).bind fun table =>
      (put_all ctx table items schedule).map fun changed => tables.set i changed) = some after) :
    AllKept ctx after ∧ Stores (tables.map (Table.get ctx)) i items (after.map (Table.get ctx)) := by
  simp only [Option.bind_eq_some_iff,Option.map_eq_some_iff] at stepped
  obtain ⟨t,known,changed,done,rfl⟩ := stepped
  obtain ⟨keptChanged,values⟩ := put_all_get laws (kept.get known) done
  refine ⟨kept.set keptChanged i,Table.get ctx t,Table.get ctx changed,?_,List.map_set,values⟩
  rw [List.getElem?_map,known]
  rfl

private theorem op_follows (laws : Laws ctx.serdes) {tables after : List RollPair} (kept : AllKept ctx tables) {op : Op Obj}
    (home : homely ctx tables (.op op) = true) (stepped : step ctx tables op = some after)
    (other : ∀ t k v, op ≠ .put t k v) : Follows ctx tables (.op op) after := by
  cases op with
  | create total_partitions =>
    simp only [step,Option.ite_none_right_eq_some,Option.some.injEq] at stepped
    obtain ⟨positive,rfl⟩ := stepped
    refine ⟨kept.append fun t member => ?_,?_⟩
    · rw [List.mem_singleton.mp member]
      exact ⟨⟨positive,fun i _ k inside => absurd inside Std.ExtTreeMap.not_mem_empty,
        fun i _ k inside => absurd inside Std.ExtTreeMap.not_mem_empty⟩,
        fun i _ k inside => absurd inside Std.ExtTreeMap.not_mem_empty⟩
    · refine (List.map_append).trans (congrArg _ (congrArg (fun m => [m]) (funext fun k => ?_)))
      simp [Table.get,noEntries]
  | put t k v => exact absurd rfl (other t k v)
  | put_all t items schedule => exact put_all_follows laws kept stepped
  | put_all_values t items schedule => exact put_all_follows laws kept stepped
  | map t func => exact rekeyed_follows laws kept (homeOn_spec home) stepped
  | flat_map t func => exact rekeyed_follows laws kept (homeOn_spec home) stepped
  | map_values t func => exact derives_of kept (fun _ _ kept done => map_values_get laws kept func done) stepped
  | filter t func => exact derives_of kept (fun _ _ kept done => filter_get laws kept func done) stepped
  | sample t draws => exact derives_of kept (fun _ _ kept done => sample_get laws kept draws done) stepped
  | collapse_partitions t func =>
    exact rekeyed_follows laws kept (fun _ known => (collapse_keeps func).atHomes laws (kept.get known)) stepped
  | map_partitions t func reduce_op shuffle schedule =>
    cases shuffle with
    | true => exact derives_of kept (fun _ _ kept done => shuffled_makes laws kept done) stepped
    | false =>
      cases reduce_op with
      | none => exact rekeyed_follows laws kept (homeOn_spec home) stepped
      | some op => simp [step,unshuffled] at stepped
  | repartition t num_partitions schedule =>
    simp only [step,Option.bind_eq_some_iff] at stepped
    obtain ⟨table,known,stepped⟩ := stepped
    split at stepped
    · cases stepped
      exact ⟨kept,.inl rfl⟩
    · split at stepped
      · contradiction
      · rename_i nonzero
        have derived : AllKept ctx after ∧
            Derives (tables.map (Table.get ctx)) t (after.map (Table.get ctx)) fun m new => new = m :=
          derives_of kept (fun _ _ kept done => repartition_get laws kept (Nat.pos_of_ne_zero nonzero) done)
            (by rw [known]; exact stepped)
        exact ⟨derived.1,.inr derived.2⟩
  | join t other func schedule => exact combined_of laws kept rfl (intersecting_mapOp func) stepped
  | union t other func schedule => exact combined_of laws kept rfl (union_mapOp func) stepped
  | subtract_by_key t other schedule => exact combined_of laws kept rfl subtract_mapOp stepped

private theorem act_follows (laws : Laws ctx.serdes) {tables after : List RollPair} (kept : AllKept ctx tables)
    {action : Action Obj} (home : homely ctx tables action = true) (stepped : act ctx tables action = some after) :
    Follows ctx tables action after := by
  cases action with
  | op op =>
    by_cases put_ : ∃ t k v, op = .put t k v
    · obtain ⟨t,k,v,rfl⟩ := put_
      simp only [act,Option.map_eq_some_iff] at stepped
      obtain ⟨table,known,rfl⟩ := stepped
      have there : (tables.map (Table.get ctx))[t]? = some (Table.get ctx table) := by
        rw [List.getElem?_map,known]
        rfl
      cases done : put ctx table k v with
      | some changed =>
        obtain ⟨taken,keptChanged,value⟩ := put_get_table laws (kept.get known) done
        refine ⟨kept.set keptChanged t,_,there,?_⟩
        rw [if_pos taken,Option.getD_some,List.map_set,value]
      | none =>
        refine ⟨kept.set (kept.get known) t,_,there,?_⟩
        rw [if_neg (by simp [put_refused done]),Option.getD_none,List.map_set]
    · have other (t : Nat) (k v : Obj) : op ≠ .put t k v := fun same => put_ ⟨t,k,v,same⟩
      refine op_follows laws kept home ?_ other
      cases op with
      | put t k v => exact absurd rfl (other t k v)
      | _ => exact stepped
  | delete t k =>
    simp only [act,Option.bind_eq_some_iff,Option.map_eq_some_iff] at stepped
    obtain ⟨table,known,changed,done,rfl⟩ := stepped
    obtain ⟨keptChanged,value⟩ := delete_get laws (kept.get known) done
    refine ⟨kept.set keptChanged t,Table.get ctx table,?_,?_⟩
    · rw [List.getElem?_map,known]
      rfl
    · rw [List.map_set,value]
  | copy_as t => exact derives_of kept (fun _ _ kept done => copy_as_kept kept done) stepped
  | map_partitions_with_index t func shuffle schedule =>
    cases shuffle with
    | true => exact derives_of kept (fun _ _ kept done => shuffled_makes laws kept done) stepped
    | false => exact rekeyed_follows laws kept (homeOn_spec home) stepped

/-- A run on maps, one operation after the other. -/
inductive MapsRun (ctx : Context Obj) : List (Entries Obj) → List (Action Obj) → List (Entries Obj) → Prop
  | nil (maps : List (Entries Obj)) : MapsRun ctx maps [] maps
  | cons {maps next after : List (Entries Obj)} {action : Action Obj} {rest : List (Action Obj)} :
      Means ctx maps action next → MapsRun ctx next rest after → MapsRun ctx maps (action :: rest) after

theorem run_follows (laws : Laws ctx.serdes) {tables after : List RollPair} {ops : List (Action Obj)}
    (kept : AllKept ctx tables) (run : ((actions ctx).restrict (homely ctx)).Run tables ops after) :
    AllKept ctx after ∧ MapsRun ctx (tables.map (Table.get ctx)) ops (after.map (Table.get ctx)) := by
  induction ops generalizing tables with
  | nil =>
    cases (System.run_nil_iff _ _ _).mp run
    exact ⟨kept,.nil _⟩
  | cons action rest ih =>
    obtain ⟨next,stepped,tail⟩ := (System.run_cons_iff _ _ _ _ _).mp run
    obtain ⟨home,stepped⟩ := (System.restrict_step_iff _ _ _ _ _).mp stepped
    obtain ⟨keptNext,means⟩ := act_follows laws kept home stepped
    obtain ⟨keptAfter,later⟩ := ih keptNext tail
    exact ⟨keptAfter,.cons means later⟩

end

/-- A join of two tables with one key, of one and of two partitions, and what is done to it. -/
def joinOps : List (Action UInt8) :=
  [.op (.create 1),.op (.put 0 0 2),.op (.create 2),.op (.put 1 0 7),.op (.join 0 1 (fun a b => a + b) oneToTwo),
    .op (.map_values 3 fun v => v + 1),.delete 3 0,.copy_as 4]

end Eggroll.Table
