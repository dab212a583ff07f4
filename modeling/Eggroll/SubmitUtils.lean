import Mathlib.Data.List.Basic
import Mathlib.Data.List.MinMax
import Mathlib.Order.Nat
import Eggroll.Library.Traverse

/-! `decompose_tasks` (`submit_utils.py`): a job over several stores becomes one task for each
partition. The first input and the first output alone say how many there are. -/
namespace Eggroll.SubmitUtils
open Library

/-- Endpoints are objects of `ErEndpoint`, which has no `__eq__`: `E` is their identity. -/
structure ErProcessor (E : Type) where
  command_endpoint : Option E
deriving Repr, DecidableEq

/-- The parts of a locator by which a task finds the data. -/
structure ErStoreLocator where
  store_type : String
  nameSpace : String
  name : String
deriving Repr, DecidableEq

structure ErPartition (E : Type) where
  id : Int
  store_locator : ErStoreLocator
  processor : Option (ErProcessor E)
deriving Repr, DecidableEq

/-- `num_partitions` is what the store's locator says. -/
structure ErStore (E : Type) where
  num_partitions : Int
  partitions : List (ErPartition E)
deriving Repr, DecidableEq

/-- A job with the stores of its inputs and outputs. -/
structure ErJob (E : Type) where
  id : String
  name : String
  inputs : List (ErStore E)
  outputs : List (ErStore E)
deriving Repr, DecidableEq

structure ErTask (E : Type) where
  id : String
  name : String
  inputs : List (ErPartition E)
  outputs : List (ErPartition E)
  job : ErJob E
deriving Repr, DecidableEq

/-- The IndexError of `first_input`, the AttributeError of a missing processor, and the
ValueErrors. -/
inductive Raised
  | indexError
  | attributeError
  | noPartitions
  | outOfRange (partition_id total : Nat)
  | differentEndpoint (partition_id : Nat)
  | nullEndpoint (partition_id : Nat)
deriving Repr, DecidableEq

def generate_task_id (job_id : String) (partition_id : Nat) : String :=
  "/".intercalate [job_id,"task",toString partition_id]

section
variable {E : Type} [DecidableEq E]

def ErStore.get_partition (store : ErStore E) (partition_id : Nat) : Except Raised (ErPartition E) :=
  if store.partitions.length = 0 then .error .noPartitions
  else
    match store.partitions[partition_id]? with
    | none => .error (.outOfRange partition_id store.partitions.length)
    | some partition => .ok partition

/-- Partition `i` of each store behind `partitions`, and the endpoint they share. -/
def _fill_partitions (i : Nat) : List (ErStore E) → List (ErPartition E) → Option E →
    Except Raised (List (ErPartition E) × Option E)
  | [], partitions, target_endpoint => .ok (partitions,target_endpoint)
  | store :: rest, partitions, target_endpoint =>
    match store.get_partition i with
    | .error e => .error e
    | .ok partition =>
      match partition.processor with
      | none => .error .attributeError
      | some processor =>
        match target_endpoint with
        | none => _fill_partitions i rest (partitions ++ [partition]) processor.command_endpoint
        | some endpoint =>
          if some endpoint ≠ processor.command_endpoint then .error (.differentEndpoint i)
          else _fill_partitions i rest (partitions ++ [partition]) (some endpoint)

namespace ErJob
variable (job : ErJob E)

def input_total_partitions : Int := job.inputs.head?.elim 0 ErStore.num_partitions

def output_total_partitions : Int := job.outputs.head?.elim 0 ErStore.num_partitions

/-- `_fill_partitions`, where partition `i` is below the total. -/
def fill (total : Int) (stores : List (ErStore E)) (i : Nat) (target_endpoint : Option E) :
    Except Raised (List (ErPartition E) × Option E) :=
  if i < total then _fill_partitions i stores [] target_endpoint else .ok ([],target_endpoint)

def task (i : Nat) : Except Raised (List (ErTask E) × E) := do
  let inputs ← fill job.input_total_partitions job.inputs i none
  let outputs ← fill job.output_total_partitions job.outputs i inputs.2
  match outputs.2 with
  | none => .error (.nullEndpoint i)
  | some task_endpoint => .ok ([⟨generate_task_id job.id i,job.name,inputs.1,outputs.1,job⟩],task_endpoint)

def total_partitions : Nat := (max job.input_total_partitions job.output_total_partitions).toNat

end ErJob

def decompose_tasks (job : ErJob E) : Except Raised (List (List (ErTask E) × E)) :=
  if job.inputs = [] then .error .indexError else (List.range job.total_partitions).mapM job.task

/-- Partition `i` of each store that has one, in the order of the stores. -/
def partitionsAt (stores : List (ErStore E)) (i : Nat) : List (ErPartition E) :=
  stores.filterMap fun store => store.partitions[i]?

def ErPartition.endpoint (partition : ErPartition E) : Option E :=
  partition.processor.bind ErProcessor.command_endpoint

namespace ErJob
variable (job : ErJob E)

def stores : List (ErStore E) := job.inputs ++ job.outputs

def largest : Nat := (job.stores.map fun store => store.partitions.length).foldr max 0

/-- One task for each index, with that partition of every store that has one, all at one
endpoint. -/
structure Covered (tasks : List (List (ErTask E) × E)) : Prop where
  count : tasks.length = job.largest
  each : ∀ i entry, tasks[i]? = some entry →
    entry.1 = [⟨generate_task_id job.id i,job.name,partitionsAt job.inputs i,partitionsAt job.outputs i,job⟩] ∧
      ∀ partition ∈ partitionsAt job.stores i, partition.endpoint = some entry.2

/-- `decompose_tasks` raises, or no partition is left out. -/
def Complete : Prop := ∀ tasks, decompose_tasks job = .ok tasks → job.Covered tasks

/-- The stores whose partition `i` is looked up. -/
def looked (i : Nat) : List (ErStore E) :=
  (if i < job.input_total_partitions then job.inputs else []) ++
    if i < job.output_total_partitions then job.outputs else []

end ErJob

/-- Each store has partition `i` with a processor, and their endpoints, but for leading
nulls, are this one. -/
structure Shares (stores : List (ErStore E)) (i : Nat) (endpoint : E) : Prop where
  present : ∀ store ∈ stores, ∃ partition processor, store.partitions[i]? = some partition ∧
    partition.processor = some processor
  some_endpoint : ((partitionsAt stores i).map ErPartition.endpoint).dropWhile Option.isNone ≠ []
  same : ∀ found ∈ ((partitionsAt stores i).map ErPartition.endpoint).dropWhile Option.isNone, found = some endpoint

namespace ErJob
variable (job : ErJob E)

/-- There is no input, or the partitions looked up for some index share no endpoint. -/
def Fails : Prop := job.inputs = [] ∨ ∃ i < job.total_partitions, ∀ endpoint, ¬ Shares (job.looked i) i endpoint

/-- No store has more partitions than the first one on its side, and no endpoint is null. -/
structure Uniform : Prop where
  inputs : ∀ store ∈ job.inputs, store.partitions.length ≤ job.input_total_partitions.toNat
  outputs : ∀ store ∈ job.outputs, store.partitions.length ≤ job.output_total_partitions.toNat
  endpoints : ∀ store ∈ job.stores, ∀ partition ∈ store.partitions, ∀ processor,
    partition.processor = some processor → processor.command_endpoint ≠ none

end ErJob

omit [DecidableEq E] in
private theorem get_partition_ok {store : ErStore E} {i : Nat} {partition : ErPartition E} :
    store.get_partition i = .ok partition ↔ store.partitions[i]? = some partition := by
  unfold ErStore.get_partition
  split
  · rename_i none
    simp [List.length_eq_zero_iff.mp none]
  · cases store.partitions[i]? <;> simp

def Follows (i : Nat) : Option E → List (ErStore E) → Option E → Prop
  | target, [], result => result = target
  | target, store :: rest, result => ∃ partition processor, store.partitions[i]? = some partition ∧
      partition.processor = some processor ∧
      (target = none ∨ processor.command_endpoint = target) ∧ Follows i processor.command_endpoint rest result

omit [DecidableEq E] in
private theorem follows_append {i : Nat} {target result : Option E} {first second : List (ErStore E)} :
    Follows i target (first ++ second) result ↔
      ∃ middle, Follows i target first middle ∧ Follows i middle second result := by
  induction first generalizing target with
  | nil => simp [Follows]
  | cons store rest ih =>
    simp only [List.cons_append,Follows,ih]
    constructor
    · rintro ⟨partition,processor,found,some_processor,agrees,middle,before,after⟩
      exact ⟨middle,⟨partition,processor,found,some_processor,agrees,before⟩,after⟩
    · rintro ⟨middle,⟨partition,processor,found,some_processor,agrees,before⟩,after⟩
      exact ⟨partition,processor,found,some_processor,agrees,middle,before,after⟩

private theorem fill_partitions_ok {i : Nat} {stores : List (ErStore E)} {before : List (ErPartition E)}
    {target : Option E} {result : List (ErPartition E) × Option E} :
    _fill_partitions i stores before target = .ok result ↔
      result.1 = before ++ partitionsAt stores i ∧ Follows i target stores result.2 := by
  induction stores generalizing before target with
  | nil =>
    obtain ⟨partitions,endpoint⟩ := result
    simp [_fill_partitions,partitionsAt,Follows,eq_comm]
  | cons store rest ih =>
    unfold _fill_partitions
    cases found : store.partitions[i]? with
    | none =>
      have missing (partition : ErPartition E) : store.get_partition i ≠ .ok partition := by
        rw [ne_eq,get_partition_ok,found]
        simp
      cases got : store.get_partition i with
      | ok partition => exact absurd got (missing partition)
      | error e => simp [Follows,found]
    | some partition =>
      rw [get_partition_ok.mpr found]
      cases known : partition.processor with
      | none => simp [Follows,found,known]
      | some processor =>
        have joined : before ++ [partition] ++ partitionsAt rest i = before ++ partitionsAt (store :: rest) i := by
          simp [partitionsAt,found]
        cases target with
        | none => simp [Follows,found,known,ih,← joined]
        | some endpoint =>
          by_cases same : some endpoint = processor.command_endpoint
          · simp [Follows,found,known,ih,← joined,same]
          · simp [Follows,found,known,same,Ne.symm same]

omit [DecidableEq E] in
private theorem partitionsAt_cons {store : ErStore E} {rest : List (ErStore E)} {i : Nat} {partition : ErPartition E}
    (found : store.partitions[i]? = some partition) :
    partitionsAt (store :: rest) i = partition :: partitionsAt rest i := by
  simp [partitionsAt,found]

omit [DecidableEq E] in
private theorem follows_some {i : Nat} {endpoint : E} {stores : List (ErStore E)} {result : Option E} :
    Follows i (some endpoint) stores result ↔ result = some endpoint ∧
      (∀ store ∈ stores, ∃ partition processor, store.partitions[i]? = some partition ∧
        partition.processor = some processor) ∧
      ∀ found ∈ (partitionsAt stores i).map ErPartition.endpoint, found = some endpoint := by
  induction stores with
  | nil => simp [Follows,partitionsAt]
  | cons store rest ih =>
    constructor
    · rintro ⟨partition,processor,found,known,agrees,later⟩
      have same : processor.command_endpoint = some endpoint := agrees.resolve_left (by simp)
      rw [same,ih] at later
      obtain ⟨ends,present,all⟩ := later
      refine ⟨ends,List.forall_mem_cons.mpr ⟨⟨partition,processor,found,known⟩,present⟩,?_⟩
      rw [partitionsAt_cons found]
      exact List.forall_mem_cons.mpr ⟨by simp [ErPartition.endpoint,known,same],all⟩
    · rintro ⟨ends,present,all⟩
      obtain ⟨⟨partition,processor,found,known⟩,present⟩ := List.forall_mem_cons.mp present
      rw [partitionsAt_cons found] at all
      obtain ⟨own,all⟩ := List.forall_mem_cons.mp all
      have same : processor.command_endpoint = some endpoint := by simpa [ErPartition.endpoint,known] using own
      exact ⟨partition,processor,found,known,.inr same,by rw [same]; exact ih.mpr ⟨ends,present,all⟩⟩

omit [DecidableEq E] in
private theorem follows_shares {i : Nat} {endpoint : E} {stores : List (ErStore E)} :
    Follows i none stores (some endpoint) ↔ Shares stores i endpoint := by
  induction stores with
  | nil => exact ⟨fun found => by simp [Follows] at found,fun shares => absurd rfl shares.some_endpoint⟩
  | cons store rest ih =>
    constructor
    · rintro ⟨partition,processor,found,known,_,later⟩
      have own : partition.endpoint = processor.command_endpoint := by simp [ErPartition.endpoint,known]
      cases endpoint_eq : processor.command_endpoint with
      | none =>
        rw [endpoint_eq,ih] at later
        rw [endpoint_eq] at own
        refine ⟨List.forall_mem_cons.mpr ⟨⟨partition,processor,found,known⟩,later.present⟩,?_,?_⟩
        · simpa [partitionsAt_cons found,own] using later.some_endpoint
        · simpa [partitionsAt_cons found,own] using later.same
      | some first =>
        rw [endpoint_eq,follows_some] at later
        rw [endpoint_eq] at own
        obtain ⟨ends,present,all⟩ := later
        cases ends
        refine ⟨List.forall_mem_cons.mpr ⟨⟨partition,processor,found,known⟩,present⟩,?_,?_⟩
        · simp [partitionsAt_cons found,own]
        · simpa [partitionsAt_cons found,own] using all
    · rintro ⟨present,some_endpoint,same⟩
      obtain ⟨⟨partition,processor,found,known⟩,present⟩ := List.forall_mem_cons.mp present
      have own : partition.endpoint = processor.command_endpoint := by simp [ErPartition.endpoint,known]
      refine ⟨partition,processor,found,known,.inl rfl,?_⟩
      cases endpoint_eq : processor.command_endpoint with
      | none =>
        rw [endpoint_eq] at own
        refine ih.mpr ⟨present,?_,?_⟩
        · simpa [partitionsAt_cons found,own] using some_endpoint
        · simpa [partitionsAt_cons found,own] using same
      | some first =>
        rw [endpoint_eq] at own
        simp only [partitionsAt_cons found,List.map_cons,own,List.dropWhile_cons,Option.isNone_some,
          Bool.false_eq_true,if_false,List.forall_mem_cons] at same
        rw [follows_some]
        obtain ⟨first_eq,others⟩ := same
        cases first_eq
        exact ⟨rfl,present,others⟩

namespace ErJob
variable (job : ErJob E)

private theorem fill_ok {total : Int} {stores : List (ErStore E)} {i : Nat} {target : Option E}
    {result : List (ErPartition E) × Option E} :
    fill total stores i target = .ok result ↔
      result.1 = partitionsAt (if i < total then stores else []) i ∧
        Follows i target (if i < total then stores else []) result.2 := by
  unfold fill
  split
  · rw [fill_partitions_ok,List.nil_append]
  · obtain ⟨partitions,endpoint⟩ := result
    simp [partitionsAt,Follows,eq_comm]

theorem task_ok {i : Nat} {entry : List (ErTask E) × E} :
    job.task i = .ok entry ↔ Shares (job.looked i) i entry.2 ∧
      entry.1 = [⟨generate_task_id job.id i,job.name,
        partitionsAt (if i < job.input_total_partitions then job.inputs else []) i,
        partitionsAt (if i < job.output_total_partitions then job.outputs else []) i,job⟩] := by
  obtain ⟨tasks,endpoint⟩ := entry
  rw [← follows_shares,looked,follows_append]
  constructor
  · intro done
    unfold task at done
    cases inputs : fill job.input_total_partitions job.inputs i none with
    | error e => simp [inputs,bind,Except.bind] at done
    | ok first =>
      cases outputs : fill job.output_total_partitions job.outputs i first.2 with
      | error e => simp [inputs,outputs,bind,Except.bind] at done
      | ok second =>
        obtain ⟨read,follows⟩ := fill_ok.mp inputs
        obtain ⟨written,follows'⟩ := fill_ok.mp outputs
        simp only [inputs,outputs,bind,Except.bind] at done
        split at done
        · cases done
        · rename_i found
          cases done
          rw [found] at follows'
          exact ⟨⟨first.2,follows,follows'⟩,by rw [read,written]⟩
  · rintro ⟨⟨middle,follows,follows'⟩,rfl⟩
    have inputs : fill job.input_total_partitions job.inputs i none =
      .ok (partitionsAt (if i < job.input_total_partitions then job.inputs else []) i,middle) :=
      fill_ok.mpr ⟨rfl,follows⟩
    have outputs : fill job.output_total_partitions job.outputs i middle =
      .ok (partitionsAt (if i < job.output_total_partitions then job.outputs else []) i,some endpoint) :=
      fill_ok.mpr ⟨rfl,follows'⟩
    simp only [task,inputs,outputs,bind,Except.bind]

theorem decompose_ok {tasks : List (List (ErTask E) × E)} :
    decompose_tasks job = .ok tasks ↔ job.inputs ≠ [] ∧ tasks.length = job.total_partitions ∧
      ∀ i entry, tasks[i]? = some entry → job.task i = .ok entry := by
  unfold decompose_tasks
  split
  · rename_i none
    simp [none]
  · rename_i some_input
    rw [mapM_ok,List.forall₂_iff_get]
    simp only [List.length_range,List.get_eq_getElem,List.getElem_range]
    constructor
    · rintro ⟨length,each⟩
      refine ⟨some_input,length.symm,fun i entry found => ?_⟩
      obtain ⟨within,rfl⟩ := List.getElem?_eq_some_iff.mp found
      exact each i (length ▸ within) within
    · rintro ⟨_,length,each⟩
      exact ⟨length.symm,fun i _ within => each i _ (List.getElem?_eq_getElem within)⟩

private theorem looked_present {job : ErJob E} {tasks : List (List (ErTask E) × E)} (done : decompose_tasks job = .ok tasks)
    {i : Nat} (within : i < job.total_partitions) : ∃ endpoint, Shares (job.looked i) i endpoint := by
  obtain ⟨_,length,each⟩ := job.decompose_ok.mp done
  have found := List.getElem?_eq_getElem (length.symm ▸ within : i < tasks.length)
  exact ⟨_,(job.task_ok.mp (each i _ found)).1⟩

omit [DecidableEq E] in
private theorem mem_partitionsAt {stores : List (ErStore E)} {i : Nat} {partition : ErPartition E} :
    partition ∈ partitionsAt stores i ↔ ∃ store ∈ stores, store.partitions[i]? = some partition := by
  simp [partitionsAt]

omit [DecidableEq E] in
private theorem partitionsAt_looked {stores : List (ErStore E)} {total : Int} {i : Nat}
    (small : ∀ store ∈ stores, store.partitions.length ≤ total.toNat) :
    partitionsAt (if i < total then stores else []) i = partitionsAt stores i := by
  split
  · rfl
  · rename_i outside
    rw [eq_comm,partitionsAt,List.filterMap_eq_nil_iff.mpr]
    · rfl
    · intro store member
      have := small store member
      exact List.getElem?_eq_none (by omega)

omit [DecidableEq E] in
private theorem sizes_eq {stores : List (ErStore E)} {total : Int} (small : ∀ store ∈ stores, store.partitions.length ≤ total.toNat)
    (found : ∀ i : Nat, i < total → ∀ store ∈ stores, i < store.partitions.length) :
    ∀ store ∈ stores, store.partitions.length = total.toNat := by
  intro store member
  have upper := small store member
  by_contra other
  have missing := found store.partitions.length (by omega) store member
  exact Nat.lt_irrefl _ missing

private theorem looked_length {job : ErJob E} {tasks : List (List (ErTask E) × E)} (done : decompose_tasks job = .ok tasks)
    {i : Nat} (within : i < job.total_partitions) {store : ErStore E} (member : store ∈ job.looked i) :
    i < store.partitions.length := by
  obtain ⟨_,shares⟩ := looked_present done within
  obtain ⟨partition,_,found,_⟩ := shares.present store member
  exact (List.getElem?_eq_some_iff.mp found).1

omit [DecidableEq E] in
private theorem le_largest {job : ErJob E} {store : ErStore E} (member : store ∈ job.stores) :
    store.partitions.length ≤ job.largest :=
  List.le_max_of_le' 0 (List.mem_map_of_mem member) (Nat.le_refl _)

omit [DecidableEq E] in
private theorem largest_le {job : ErJob E} {bound : Nat} (small : ∀ store ∈ job.stores, store.partitions.length ≤ bound) :
    job.largest ≤ bound := by
  -- on the naturals the starting 0 is ⊥
  change (job.stores.map fun store => store.partitions.length).foldr max ⊥ ≤ bound
  apply List.max_le_of_forall_le
  intro size member
  obtain ⟨store,of_job,rfl⟩ := List.mem_map.mp member
  exact small store of_job

omit [DecidableEq E] in
private theorem total_le_largest {job : ErJob E} {stores : List (ErStore E)} (of_job : ∀ store ∈ stores, store ∈ job.stores)
    {total : Int} (none : stores = [] → total = 0) (sizes : ∀ store ∈ stores, store.partitions.length = total.toNat) :
    total.toNat ≤ job.largest := by
  cases stores with
  | nil => simp [none rfl]
  | cons store rest =>
    have member := List.mem_cons_self (a := store) (l := rest)
    rw [← sizes store member]
    exact le_largest (of_job store member)

private theorem Uniform.largest {job : ErJob E} (uniform : job.Uniform) {tasks : List (List (ErTask E) × E)}
    (done : decompose_tasks job = .ok tasks) : job.total_partitions = job.largest := by
  have inputs := sizes_eq uniform.inputs fun i within store member =>
    looked_length done (by unfold total_partitions; omega) (List.mem_append_left _ (by rw [if_pos within]; exact member))
  have outputs := sizes_eq uniform.outputs fun i within store member =>
    looked_length done (by unfold total_partitions; omega) (List.mem_append_right _ (by rw [if_pos within]; exact member))
  have read : job.input_total_partitions.toNat ≤ job.largest :=
    total_le_largest (fun _ => List.mem_append_left _) (fun none => by simp [input_total_partitions,none]) inputs
  have written : job.output_total_partitions.toNat ≤ job.largest :=
    total_le_largest (fun _ => List.mem_append_right _) (fun none => by simp [output_total_partitions,none]) outputs
  apply le_antisymm
  · unfold total_partitions
    omega
  · apply largest_le
    intro store member
    unfold total_partitions
    rcases List.mem_append.mp member with input | output
    · have := inputs store input
      omega
    · have := outputs store output
      omega

omit [DecidableEq E] in
private theorem partitionsAt_append {first second : List (ErStore E)} {i : Nat} :
    partitionsAt (first ++ second) i = partitionsAt first i ++ partitionsAt second i :=
  List.filterMap_append

omit [DecidableEq E] in
private theorem endpoint_shared {stores : List (ErStore E)} {i : Nat} {endpoint : E} (shares : Shares stores i endpoint)
    (endpoints : ∀ partition ∈ partitionsAt stores i, partition.endpoint ≠ none) :
    ∀ partition ∈ partitionsAt stores i, partition.endpoint = some endpoint := by
  have same := shares.same
  cases rows : partitionsAt stores i with
  | nil => simp
  | cons first rest =>
    rw [rows] at same endpoints
    have started : first.endpoint.isNone = false := by
      simpa [Option.isNone_eq_false_iff,Option.isSome_iff_ne_none] using endpoints first List.mem_cons_self
    rw [List.map_cons,List.dropWhile_cons_of_neg (by simp [started]),← List.map_cons] at same
    exact List.forall_mem_map.mp same

theorem Uniform.covered {job : ErJob E} (uniform : job.Uniform) {tasks : List (List (ErTask E) × E)}
    (done : decompose_tasks job = .ok tasks) : job.Covered tasks := by
  obtain ⟨_,length,each⟩ := job.decompose_ok.mp done
  refine ⟨length.trans (uniform.largest done),fun i entry found => ?_⟩
  obtain ⟨shares,made⟩ := job.task_ok.mp (each i entry found)
  have looked : partitionsAt (job.looked i) i = partitionsAt job.stores i := by
    rw [ErJob.looked,stores,partitionsAt_append,partitionsAt_append,partitionsAt_looked uniform.inputs,
      partitionsAt_looked uniform.outputs]
  rw [partitionsAt_looked uniform.inputs,partitionsAt_looked uniform.outputs] at made
  refine ⟨made,?_⟩
  rw [← looked]
  apply endpoint_shared shares
  intro partition member
  obtain ⟨store,of_looked,at_index⟩ := mem_partitionsAt.mp member
  obtain ⟨partition',processor,at_index',known⟩ := shares.present store of_looked
  have same : partition' = partition := Option.some.inj (at_index'.symm.trans at_index)
  subst same
  obtain ⟨store',of_job,at_store⟩ := mem_partitionsAt.mp (looked ▸ member)
  have := uniform.endpoints store' of_job partition' (List.mem_of_getElem? at_store) processor known
  simpa [ErPartition.endpoint,known] using this

omit [DecidableEq E] in
private theorem length_le_total {stores : List (ErStore E)} {total : Int}
    (same : ∀ store ∈ stores, ∀ i : Nat, i < store.partitions.length →
      partitionsAt (if i < total then stores else []) i = partitionsAt stores i) :
    ∀ store ∈ stores, store.partitions.length ≤ total.toNat := by
  intro store member
  by_contra longer
  have inside : total.toNat < store.partitions.length := by omega
  have outside : ¬ (total.toNat : Int) < total := by omega
  have missing := same store member total.toNat inside
  rw [if_neg outside] at missing
  have found := mem_partitionsAt.mpr ⟨store,member,List.getElem?_eq_getElem inside⟩
  rw [← missing] at found
  simp [partitionsAt] at found

private theorem Complete.uniform {job : ErJob E} (complete : job.Complete) {tasks : List (List (ErTask E) × E)}
    (done : decompose_tasks job = .ok tasks) : job.Uniform := by
  obtain ⟨count,each⟩ := complete tasks done
  obtain ⟨_,_,tasks_made⟩ := job.decompose_ok.mp done
  have entry {store : ErStore E} (member : store ∈ job.stores) {i : Nat} (inside : i < store.partitions.length) :
      ∃ entry, tasks[i]? = some entry :=
    ⟨_,List.getElem?_eq_getElem (count ▸ lt_of_lt_of_le inside (le_largest member))⟩
  have sides {i : Nat} {entry : List (ErTask E) × E} (found : tasks[i]? = some entry) :
      partitionsAt (if i < job.input_total_partitions then job.inputs else []) i = partitionsAt job.inputs i ∧
        partitionsAt (if i < job.output_total_partitions then job.outputs else []) i = partitionsAt job.outputs i := by
    have made := (job.task_ok.mp (tasks_made i entry found)).2
    simpa using made.symm.trans (each i entry found).1
  refine ⟨?_,?_,?_⟩
  · apply length_le_total
    intro store member i inside
    obtain ⟨_,found⟩ := entry (List.mem_append_left _ member) inside
    exact (sides found).1
  · apply length_le_total
    intro store member i inside
    obtain ⟨_,found⟩ := entry (List.mem_append_right _ member) inside
    exact (sides found).2
  · intro store member partition of_store processor known null
    obtain ⟨i,inside,at_index⟩ := List.getElem_of_mem of_store
    obtain ⟨entry,found⟩ := entry member inside
    have at_entry := (each i entry found).2 partition
      (mem_partitionsAt.mpr ⟨store,member,at_index ▸ List.getElem?_eq_getElem inside⟩)
    simp [ErPartition.endpoint,known,null] at at_entry

private theorem decompose_fails (fails : job.Fails) (tasks : List (List (ErTask E) × E)) : decompose_tasks job ≠ .ok tasks := by
  intro done
  obtain ⟨some_input,length,each⟩ := job.decompose_ok.mp done
  rcases fails with none | ⟨i,within,apart⟩
  · exact some_input none
  · have found := List.getElem?_eq_getElem (length.symm ▸ within : i < tasks.length)
    exact apart _ (job.task_ok.mp (each i _ found)).1

theorem decompose_returns (fails : ¬ job.Fails) : ∃ tasks, decompose_tasks job = .ok tasks := by
  simp only [Fails,not_or,not_exists,not_and,not_forall,not_not] at fails
  obtain ⟨some_input,shared⟩ := fails
  rw [decompose_tasks,if_neg some_input]
  apply mapM_returns
  intro i member
  obtain ⟨endpoint,shares⟩ := shared i (List.mem_range.mp member)
  exact ⟨(_,endpoint),job.task_ok.mpr ⟨shares,rfl⟩⟩

end ErJob

/-- Every partition is covered exactly where no endpoint can be found for some index, or no
store has more partitions than the first one on its side and no endpoint is null. -/
theorem decompose_complete (job : ErJob E) : job.Complete ↔ job.Fails ∨ job.Uniform := by
  constructor
  · intro complete
    by_cases fails : job.Fails
    · exact .inl fails
    · obtain ⟨tasks,done⟩ := job.decompose_returns fails
      exact .inr (complete.uniform done)
  · rintro (fails | uniform) tasks done
    · exact absurd done (job.decompose_fails fails tasks)
    · exact uniform.covered done

end

/-- A second input with one partition more than the first. -/
theorem decompose_drops : ¬ ∀ job : ErJob Nat, job.Complete := by
  intro always
  let partition (id : Int) : ErPartition Nat := ⟨id,⟨"ROLLPAIR_LMDB","n","t"⟩,some ⟨some 7⟩⟩
  let job : ErJob Nat := ⟨"job","join",[⟨1,[partition 0]⟩,⟨2,[partition 0,partition 1]⟩],[]⟩
  let task : ErTask Nat := ⟨generate_task_id "job" 0,"join",[partition 0,partition 0],[],job⟩
  have covered := always job [([task],7)] rfl
  have count := covered.count
  revert count
  decide

end Eggroll.SubmitUtils
