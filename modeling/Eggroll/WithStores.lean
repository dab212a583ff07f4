import Eggroll.Library.PyBytes
import Eggroll.TaskFutures

/-! `WithStores` (`_with_stores.py`): a function runs on partition `i` of several stores, for
each `i`. The job's inputs are the first store once for every store that was passed. -/
namespace Eggroll.WithStores
open Library SubmitUtils
variable {E ε : Type}

/-- A roll pair over a store whose partitions are numbered. -/
structure RollPair (E : Type) where
  get_store : ErStore E
  total : get_store.num_partitions = get_store.partitions.length
  numbered : ∀ (i : Nat) partition, get_store.partitions[i]? = some partition → partition.id = (i : Int)

def RollPair.num_partitions (rp : RollPair E) : Int := rp.get_store.num_partitions

structure WithStoresResponse where
  id : Int
  value : Bytes
deriving Repr, DecidableEq

/-- The ValueError of `submit`, what `decompose_tasks` and the function raise, and the
IndexError of a task without input. -/
inductive Raised (ε : Type)
  | diffPartitions (expected actual : Int)
  | decompose (e : SubmitUtils.Raised)
  | func (e : ε)
  | indexError
deriving Repr, DecidableEq

/-- `run`; the value `None` is read as the empty string. -/
def run (f : ErTask E → Except ε Bytes) (task : ErTask E) : Except (Raised ε) WithStoresResponse :=
  match f task, task.inputs with
  | .error e, _ => .error (.func e)
  | .ok _, [] => .error .indexError
  | .ok value, first_input :: _ => .ok ⟨first_input.id,value⟩

def sync_send (f : ErTask E → Except ε Bytes) (_call : Nat) (inputs : List (ErTask E)) (_endpoint : E) :
    Except (Raised ε) WithStoresResponse :=
  match inputs with
  | [] => .error .indexError
  | task :: _ => run f task

def job (job_id : String) (rp : RollPair E) (others : List (RollPair E)) : ErJob E :=
  ⟨job_id,"withStores",rp.get_store :: others.map fun _ => rp.get_store,[]⟩

/-- `submit` up to the tasks. -/
def tasks [DecidableEq E] (job_id : String) (rp : RollPair E) (others : List (RollPair E)) :
    Except (Raised ε) (List (List (ErTask E) × E)) :=
  match others.find? fun other => other.num_partitions ≠ rp.num_partitions with
  | some other => .error (.diffPartitions rp.num_partitions other.num_partitions)
  | none => (decompose_tasks (job job_id rp others)).mapError .decompose

/-- `submit` from the tasks on: `[(response.id, response.value) …]`. -/
def results (f : ErTask E → Except ε Bytes) (tasks : List (List (ErTask E) × E))
    (w : Waited (async_call (sync_send f) tasks)) : Except (Raised ε) (List (Int × Bytes)) :=
  (block_submit_unary_unit_tasks (sync_send f) tasks w).map fun responses =>
    responses.map fun response => (response.id,response.value)

/-- Task `i` has, in order, partition `i` of each of the stores. -/
structure HandsOut (rp : RollPair E) (others : List (RollPair E)) (tasks : List (List (ErTask E) × E)) : Prop where
  count : tasks.length = rp.get_store.partitions.length
  each : ∀ (i : Nat) entry, tasks[i]? = some entry → ∃ task, entry.1 = [task] ∧
    task.inputs.map some = (rp :: others).map fun p => p.get_store.partitions[i]?

def Collects (f : ErTask E → Except ε Bytes) (tasks : List (List (ErTask E) × E)) (pairs : List (Int × Bytes)) : Prop :=
  ∃ values : List Bytes, pairs.Perm (values.mapIdx fun i value => ((i : Int),value)) ∧
    values.length = tasks.length ∧
    ∀ (i : Nat) entry value, tasks[i]? = some entry → values[i]? = some value → ∃ task, entry.1 = [task] ∧ f task = .ok value

def RunsOnEach [DecidableEq E] (ε : Type) (job_id : String) (rp : RollPair E) (others : List (RollPair E)) : Prop :=
  ∀ made, (tasks job_id rp others : Except (Raised ε) _) = .ok made →
    HandsOut rp others made ∧ ∀ (f : ErTask E → Except ε Bytes) w pairs, results f made w = .ok pairs → Collects f made pairs

/-- Every partition is at an egg pair. -/
def RollPair.Populated (rp : RollPair E) : Prop :=
  ∀ partition ∈ rp.get_store.partitions, ∃ endpoint, partition.endpoint = some endpoint

section
variable (job_id : String) (rp : RollPair E) (others : List (RollPair E))

private theorem job_inputs : (job job_id rp others).inputs = List.replicate (others.length + 1) rp.get_store := by
  rw [job,List.map_const',List.replicate_succ]

private theorem partitionsAt_replicate (store : ErStore E) (n i : Nat) :
    (partitionsAt (List.replicate n store) i).map some =
      if i < store.partitions.length then List.replicate n store.partitions[i]? else [] := by
  unfold partitionsAt
  split
  · rename_i inside
    rw [List.getElem?_eq_getElem inside]
    induction n with
    | zero => rfl
    | succ n ih =>
      rw [List.replicate_succ,List.filterMap_cons,List.getElem?_eq_getElem inside,List.replicate_succ,← ih]
      rfl
  · rename_i outside
    rw [List.filterMap_eq_nil_iff.mpr]
    · rfl
    · intro store' member
      rw [List.eq_of_mem_replicate member,List.getElem?_eq_none (Nat.le_of_not_lt outside)]

private theorem partitionsAt_inputs {i : Nat} {partition : ErPartition E} (found : rp.get_store.partitions[i]? = some partition) :
    partitionsAt (job job_id rp others).inputs i = List.replicate (others.length + 1) partition := by
  have mapped := partitionsAt_replicate rp.get_store (others.length + 1) i
  have inside := (List.getElem?_eq_some_iff.mp found).1
  rw [if_pos inside,found] at mapped
  rw [job_inputs]
  apply List.map_injective_iff.mpr (Option.some_injective _)
  rw [mapped,List.map_replicate]

private theorem input_total_eq : (job job_id rp others).input_total_partitions = rp.get_store.partitions.length := rp.total

private theorem total_partitions_eq : (job job_id rp others).total_partitions = rp.get_store.partitions.length := by
  have outputs : (job job_id rp others).output_total_partitions = 0 := rfl
  rw [ErJob.total_partitions,input_total_eq,outputs]
  omega

private theorem shares_iff {i : Nat} {endpoint : E} {partition : ErPartition E}
    (found : rp.get_store.partitions[i]? = some partition) :
    Shares ((job job_id rp others).looked i) i endpoint ↔ partition.endpoint = some endpoint := by
  have inside := (List.getElem?_eq_some_iff.mp found).1
  have looked : (job job_id rp others).looked i = (job job_id rp others).inputs := by
    have total := input_total_eq job_id rp others
    rw [ErJob.looked,if_pos (by omega)]
    simp [job]
  have ends : (partitionsAt (job job_id rp others).inputs i).map ErPartition.endpoint =
      List.replicate (others.length + 1) partition.endpoint := by
    rw [partitionsAt_inputs job_id rp others found,List.map_replicate]
  rw [looked]
  constructor
  · rintro ⟨-,some_endpoint,same⟩
    rw [ends] at some_endpoint same
    cases known : partition.endpoint with
    | none => simp [known] at some_endpoint
    | some found => simpa [known] using same
  · intro known
    refine ⟨?_,?_,?_⟩
    · intro store member
      rw [job_inputs] at member
      rw [List.eq_of_mem_replicate member]
      obtain ⟨processor,at_egg,-⟩ := Option.bind_eq_some_iff.mp known
      exact ⟨partition,processor,found,at_egg⟩
    · rw [ends,known]
      simp
    · rw [ends,known]
      simp

variable [DecidableEq E]

private theorem decomposed {made : List (List (ErTask E) × E)} (done : decompose_tasks (job job_id rp others) = .ok made) :
    made.length = rp.get_store.partitions.length ∧ ∀ (i : Nat) (entry : List (ErTask E) × E), made[i]? = some entry →
      ∃ partition task, rp.get_store.partitions[i]? = some partition ∧ partition.endpoint = some entry.2 ∧
        entry.1 = [task] ∧ task.inputs = List.replicate (others.length + 1) partition := by
  obtain ⟨-,length,each⟩ := (ErJob.decompose_ok _).mp done
  rw [total_partitions_eq] at length
  refine ⟨length,fun i entry found => ?_⟩
  have inside : i < rp.get_store.partitions.length := length ▸ (List.getElem?_eq_some_iff.mp found).1
  have partition := List.getElem?_eq_getElem inside
  obtain ⟨shares,made_of⟩ := (ErJob.task_ok _).mp (each i entry found)
  have total := input_total_eq job_id rp others
  refine ⟨_,_,partition,(shares_iff job_id rp others partition).mp shares,made_of,?_⟩
  rw [if_pos (by omega)]
  exact partitionsAt_inputs job_id rp others partition

private theorem decomposed_iff : (∃ made, decompose_tasks (job job_id rp others) = .ok made) ↔ rp.Populated := by
  constructor
  · rintro ⟨made,done⟩ partition member
    obtain ⟨length,each⟩ := decomposed job_id rp others done
    obtain ⟨i,inside,found⟩ := List.getElem_of_mem member
    obtain ⟨partition',_,same,known,_⟩ := each i _ (List.getElem?_eq_getElem (length ▸ inside))
    rw [List.getElem?_eq_getElem inside,found] at same
    cases same
    exact ⟨_,known⟩
  · intro populated
    apply ErJob.decompose_returns
    rintro (empty | ⟨i,within,apart⟩)
    · simp [job] at empty
    · rw [total_partitions_eq] at within
      obtain ⟨endpoint,known⟩ := populated _ (List.getElem_mem within)
      exact apart endpoint ((shares_iff job_id rp others (List.getElem?_eq_getElem within)).mpr known)

private theorem tasks_ok (same : ∀ other ∈ others, other.num_partitions = rp.num_partitions)
    {made : List (List (ErTask E) × E)} :
    (tasks job_id rp others : Except (Raised ε) _) = .ok made ↔ decompose_tasks (job job_id rp others) = .ok made := by
  have none_differs : others.find? (fun other => other.num_partitions ≠ rp.num_partitions) = none := by
    rw [List.find?_eq_none]
    intro other member
    simpa using same other member
  rw [tasks,none_differs]
  cases decompose_tasks (job job_id rp others) with
  | ok found => simp [Except.mapError]
  | error e => simp [Except.mapError]

private theorem handsOut_iff (same : ∀ other ∈ others, other.num_partitions = rp.num_partitions)
    {made : List (List (ErTask E) × E)} (done : decompose_tasks (job job_id rp others) = .ok made) :
    HandsOut rp others made ↔ ∀ other ∈ others, other.get_store.partitions = rp.get_store.partitions := by
  obtain ⟨length,each⟩ := decomposed job_id rp others done
  constructor
  · rintro ⟨-,given⟩ other member
    apply List.ext_getElem?
    intro i
    have counts : other.get_store.partitions.length = rp.get_store.partitions.length := by
      have total := same other member
      rw [RollPair.num_partitions,RollPair.num_partitions,other.total,rp.total] at total
      exact Int.natCast_inj.mp total
    rcases Nat.lt_or_ge i made.length with inside | outside
    · obtain ⟨partition,task,found,-,alone,inputs⟩ := each i _ (List.getElem?_eq_getElem inside)
      obtain ⟨task',alone',stores⟩ := given i _ (List.getElem?_eq_getElem inside)
      cases alone.symm.trans alone'
      rw [inputs,List.map_replicate] at stores
      have row : other.get_store.partitions[i]? ∈ (rp :: others).map fun p => p.get_store.partitions[i]? :=
        List.mem_map_of_mem (List.mem_cons_of_mem _ member)
      rw [← stores] at row
      rw [List.eq_of_mem_replicate row,found]
    · rw [List.getElem?_eq_none (by omega),List.getElem?_eq_none (by omega)]
  · intro own
    refine ⟨length,fun i entry found => ?_⟩
    obtain ⟨partition,task,at_index,-,alone,inputs⟩ := each i entry found
    refine ⟨task,alone,?_⟩
    rw [inputs,List.map_replicate,List.replicate_succ,List.map_cons,at_index,List.cons.injEq,eq_self,true_and]
    symm
    rw [List.eq_replicate_iff,List.length_map]
    refine ⟨rfl,fun row member => ?_⟩
    obtain ⟨other,of_others,rfl⟩ := List.mem_map.mp member
    rw [own other of_others,at_index]

omit [DecidableEq E] in
theorem run_ok {f : ErTask E → Except ε Bytes} {task : ErTask E} {first : ErPartition E} {rest : List (ErPartition E)}
    (inputs : task.inputs = first :: rest) {response : WithStoresResponse} (ran : run f task = .ok response) :
    response.id = first.id ∧ f task = .ok response.value := by
  unfold run at ran
  rw [inputs] at ran
  cases value : f task with
  | error e =>
    rw [value] at ran
    cases ran
  | ok v =>
    rw [value] at ran
    cases ran
    exact ⟨rfl,rfl⟩

omit [DecidableEq E] in
private theorem results_ok {f : ErTask E → Except ε Bytes} {made : List (List (ErTask E) × E)}
    {w : Waited (async_call (sync_send f) made)} {pairs : List (Int × Bytes)} (collected : results f made w = .ok pairs) :
    ∃ responses : List WithStoresResponse, async_call (sync_send f) made = responses.map .ok ∧
      pairs.Perm (responses.map fun response => (response.id,response.value)) := by
  unfold results block_submit_unary_unit_tasks at collected
  by_cases failure : ∃ e, .error e ∈ async_call (sync_send f) made
  · obtain ⟨e,-,raised⟩ := raises_of_failure (w := w) failure
    rw [raised] at collected
    cases collected
  · obtain ⟨responses,shape⟩ := responses_of_fine failure
    obtain ⟨gathered,returned,perm⟩ := returns_perm responses w shape
    rw [returned] at collected
    cases collected
    exact ⟨responses,shape,perm.map _⟩

private theorem collects {made : List (List (ErTask E) × E)} (done : decompose_tasks (job job_id rp others) = .ok made)
    (f : ErTask E → Except ε Bytes) (w : Waited (async_call (sync_send f) made)) {pairs : List (Int × Bytes)}
    (collected : results f made w = .ok pairs) : Collects f made pairs := by
  obtain ⟨responses,shape,perm⟩ := results_ok collected
  obtain ⟨-,each⟩ := decomposed job_id rp others done
  have count : responses.length = made.length := by
    have lengths := congrArg List.length shape
    rw [async_call,List.length_mapIdx,List.length_map] at lengths
    exact lengths.symm
  -- the answer of call `i` is what the function gave, under the id of partition `i`
  have answer (i : Nat) (entry : List (ErTask E) × E) (response : WithStoresResponse) (at_task : made[i]? = some entry)
      (at_response : responses[i]? = some response) :
      response.id = i ∧ ∃ task, entry.1 = [task] ∧ f task = .ok response.value := by
    obtain ⟨partition,task,found,-,alone,inputs⟩ := each i entry at_task
    have outcome : (async_call (sync_send f) made)[i]? = some (.ok response) := by
      rw [shape,List.getElem?_map,at_response]
      rfl
    rw [async_call,List.getElem?_mapIdx,at_task,Option.map_some,Option.some.injEq,alone] at outcome
    rw [List.replicate_succ] at inputs
    obtain ⟨id,value⟩ := run_ok inputs outcome
    exact ⟨id.trans (rp.numbered i partition found),task,alone,value⟩
  refine ⟨responses.map WithStoresResponse.value,?_,by rw [List.length_map,count],?_⟩
  · have numbered : (responses.map fun response => (response.id,response.value)) =
        (responses.map WithStoresResponse.value).mapIdx fun i value => ((i : Int),value) := by
      apply List.ext_getElem?
      intro i
      rw [List.getElem?_map,List.getElem?_mapIdx,List.getElem?_map]
      cases at_response : responses[i]? with
      | none => rfl
      | some response =>
        have inside := count ▸ (List.getElem?_eq_some_iff.mp at_response).1
        obtain ⟨id,-⟩ := answer i _ response (List.getElem?_eq_getElem inside) at_response
        rw [Option.map_some,Option.map_some,Option.map_some,id]
    rw [← numbered]
    exact perm
  · intro i entry value at_task at_value
    rw [List.getElem?_map] at at_value
    obtain ⟨response,at_response,rfl⟩ := Option.map_eq_some_iff.mp at_value
    exact (answer i entry response at_task at_response).2

/-- The function runs on the partitions of each store exactly where no task can be made, or
every other store has the partitions of the first. -/
theorem with_stores (ε : Type) (job_id : String) (rp : RollPair E) (others : List (RollPair E))
    (same : ∀ other ∈ others, other.num_partitions = rp.num_partitions) :
    RunsOnEach ε job_id rp others ↔
      ¬ rp.Populated ∨ ∀ other ∈ others, other.get_store.partitions = rp.get_store.partitions := by
  unfold RunsOnEach
  simp only [tasks_ok job_id rp others same]
  constructor
  · intro runs
    by_cases populated : rp.Populated
    · obtain ⟨made,done⟩ := (decomposed_iff job_id rp others).mpr populated
      exact .inr ((handsOut_iff job_id rp others same done).mp (runs made done).1)
    · exact .inl populated
  · rintro (empty | own) made done
    · exact absurd ((decomposed_iff job_id rp others).mp ⟨made,done⟩) empty
    · exact ⟨(handsOut_iff job_id rp others same done).mpr own,
        fun f w _ collected => collects job_id rp others done f w collected⟩

end

/-- A store whose partitions are at the endpoints 7 and 8 by turns. -/
def spread (name : String) (n : ℕ) : RollPair Nat where
  get_store := ⟨n,(List.range n).map fun (i : ℕ) => ⟨i,⟨"ROLLPAIR_LMDB","ns",name⟩,some ⟨some (7 + i % 2)⟩⟩⟩
  total := by simp
  numbered := by
    intro i partition found
    rw [List.getElem?_map] at found
    obtain ⟨j,at_i,rfl⟩ := Option.map_eq_some_iff.mp found
    obtain ⟨inside,rfl⟩ := List.getElem?_eq_some_iff.mp at_i
    exact congrArg Nat.cast (List.getElem_range inside)

/-- A roll pair of three partitions together with itself. -/
theorem with_stores_itself : RunsOnEach Unit "job" (spread "a" 3) [spread "a" 3] :=
  (with_stores Unit "job" (spread "a" 3) [spread "a" 3] (by simp)).mpr (.inr (by simp))

/-- Where the second store is another one, the task is given the first one's partition again. -/
theorem with_stores_mixed : ¬ RunsOnEach Unit "job" (spread "a" 1) [spread "b" 1] := by
  intro runs
  have given := ((runs [([⟨generate_task_id "job" 0,"withStores",[⟨0,⟨"ROLLPAIR_LMDB","ns","a"⟩,some ⟨some 7⟩⟩,
    ⟨0,⟨"ROLLPAIR_LMDB","ns","a"⟩,some ⟨some 7⟩⟩],[],job "job" (spread "a" 1) [spread "b" 1]⟩],7)] rfl).1.each 0 _ rfl)
  obtain ⟨task,alone,inputs⟩ := given
  cases alone
  revert inputs
  decide

end Eggroll.WithStores
