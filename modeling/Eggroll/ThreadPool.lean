import Eggroll.Library.RefCount
import Eggroll.Library.System

/-! `ErThreadUnpooledExecutor` (`threadpool.py`). A section under `_num_threads_lock` is one
step, and so is one under `_shutdown_lock` that waits for nothing. A caller of `submit` keeps
`_shutdown_lock` while it waits for room, so the lock's state says where its holder stands. -/
namespace Eggroll.ThreadPool
open Library

/-- A caller in `submit`: it waits for `_accept_event`, it has seen the event and is about to
take `_num_threads_lock`, or it has left `increase_thread_count`. -/
inductive Submitting | waiting | locking | accepted
deriving Repr, DecidableEq

/-- A work item by its future and its thread: `finished` before `on_join`, `ended` after it. -/
inductive ErWorkItem | pending | cancelled | running | finished (raised : Bool) | dropped | ended
deriving Repr, DecidableEq

structure State where
  max_workers : Int
  num_threads : Int
  accept_event : Bool
  empty_event : Bool
  shutdown : Bool
  python_exit : Bool
  shutdown_lock : Option Submitting
  items : List ErWorkItem
deriving Repr, DecidableEq

inductive Raised | ValueError | RuntimeError
deriving Repr, DecidableEq

inductive Act
  | submit
  | wait
  | recheck
  | start (fails : Bool)
  | cancel (i : Nat)
  | run (i : Nat)
  | finish (i : Nat) (raised : Bool)
  | join (i : Nat)
  | shutdown
  | empty_wait
  | python_exit
deriving Repr, DecidableEq

namespace State

def fresh (max_workers : Int) : State where
  max_workers := max_workers
  num_threads := 0
  accept_event := true
  empty_event := true
  shutdown := false
  python_exit := false
  shutdown_lock := none
  items := []

def default_workers : Option Nat → Int
  | none | some 0 => 1 * 5
  | some cpu_count => cpu_count * 5

def init (max_workers : Option Int) (cpu_count : Option Nat) : Except Raised State :=
  if max_workers.getD (default_workers cpu_count) ≤ 0 then .error .ValueError
  else .ok (fresh (max_workers.getD (default_workers cpu_count)))

/-- The test of the loop in `increase_thread_count`. -/
def loop (s : State) (wait_result : Bool) : State :=
  { s with shutdown_lock := some (if wait_result then .accepted else .waiting) }

/-- A caller that gets `_shutdown_lock`; it raises RuntimeError after a shutdown. -/
def submit (s : State) : State :=
  if s.shutdown || s.python_exit then s
  else s.loop false

/-- `_accept_event.wait(30)`. -/
def wait (s : State) : State :=
  if s.accept_event then { s with shutdown_lock := some .locking }
  else s.loop false

/-- The section under `_num_threads_lock`: its `continue` goes to the loop's test with the
result of the wait, its `break` out of the loop. -/
def recheck (s : State) : State :=
  if s.max_workers ≤ s.num_threads then { s with accept_event := false }.loop true
  else { s with
    num_threads := s.num_threads + 1
    empty_event := false
    shutdown_lock := some .accepted }

/-- `t.start()`, which may fail, and the end of `submit`. -/
def start (s : State) (fails : Bool) : State :=
  if fails then { s with shutdown_lock := none }
  else { s with
    shutdown_lock := none
    items := s.items ++ [.pending] }

/-- A negative count raises OverflowError in the worker, after it was set. -/
def decrease_thread_count (s : State) : State :=
  { s with
    num_threads := s.num_threads - 1
    accept_event := true
    empty_event := s.empty_event || s.num_threads - 1 == 0 }

def setItem (s : State) (i : Nat) (item : ErWorkItem) : State := { s with items := s.items.set i item }

end State

/-- `set_running_or_notify_cancel`; a cancelled item's `run` returns here. -/
def ErWorkItem.set_running_or_notify_cancel : ErWorkItem → Option ErWorkItem
  | .pending => some .running
  | .cancelled => some .dropped
  | _ => none

/-- `Future.cancel`, which leaves a future that runs or is done as it is. -/
def ErWorkItem.cancel : ErWorkItem → ErWorkItem
  | .pending => .cancelled
  | item => item

def step (s : State) : Act → Option State
  | .submit => if s.shutdown_lock = none then some s.submit else none
  | .wait => if s.shutdown_lock = some .waiting then some s.wait else none
  | .recheck => if s.shutdown_lock = some .locking then some s.recheck else none
  | .start fails => if s.shutdown_lock = some .accepted then some (s.start fails) else none
  | .cancel i => (s.items[i]?).map fun item => s.setItem i item.cancel
  | .run i => (s.items[i]?).bind fun item => item.set_running_or_notify_cancel.map (s.setItem i)
  | .finish i raised => if s.items[i]? = some .running then some (s.setItem i (.finished raised)) else none
  | .join i =>
    match s.items[i]? with
    | some (.finished _) => some (s.setItem i .ended).decrease_thread_count
    | _ => none
  | .shutdown =>
    if s.shutdown_lock = none then some { s with shutdown := true, accept_event := false } else none
  | .empty_wait => if s.empty_event then some s else none
  | .python_exit => some { s with python_exit := true }

def system (max_workers : Option Int) (cpu_count : Option Nat) : System State Act where
  start s := State.init max_workers cpu_count = .ok s
  step := step

def ErWorkItem.unended (item : ErWorkItem) : Bool := item != .dropped && item != .ended

/-- The items that have not ended, with the one of a caller on its way out of `submit`. -/
def State.unended (s : State) : Nat :=
  s.items.countP ErWorkItem.unended + if s.shutdown_lock = some .accepted then 1 else 0

structure Counted (s : State) : Prop where
  count : s.num_threads = s.unended
  bound : s.num_threads ≤ s.max_workers
  nonneg : 0 ≤ s.num_threads
  empty : s.empty_event = true ↔ s.unended = 0

/-- No caller rechecks a full pool, no thread fails to start, no thread starts on a cancelled
item. -/
def careful (s : State) : Act → Bool
  | .recheck => s.num_threads < s.max_workers
  | .start fails => !fails
  | .run i => s.items[i]? != some .cancelled
  | _ => true

private theorem unended_setItem (s : State) {i : Nat} {old item : ErWorkItem} (found : s.items[i]? = some old)
    (same : item.unended = old.unended) : (s.setItem i item).unended = s.unended :=
  congrArg (· + if s.shutdown_lock = some .accepted then 1 else 0) (countP_replace_same ErWorkItem.unended found same)

private theorem unended_ends (s : State) {i : Nat} {old item : ErWorkItem} (found : s.items[i]? = some old)
    (unended : old.unended = true) (ends : item.unended = false) :
    (s.setItem i item).unended + 1 = s.unended := by
  have counts := countP_replace ErWorkItem.unended found item
  rw [unended,ends,if_pos rfl,if_neg Bool.false_ne_true] at counts
  change (s.items.set i item).countP _ + (if s.shutdown_lock = some .accepted then 1 else 0) + 1 =
    s.items.countP _ + if s.shutdown_lock = some .accepted then 1 else 0
  omega

private theorem unended_cancel (item : ErWorkItem) : item.cancel.unended = item.unended := by
  cases item <;> rfl

theorem Counted.of_same {s t : State} (counted : Counted s) (num_threads : t.num_threads = s.num_threads)
    (unended : t.unended = s.unended) (max_workers : t.max_workers = s.max_workers)
    (empty_event : t.empty_event = s.empty_event) : Counted t where
  count := by rw [num_threads,unended,counted.count]
  bound := by rw [num_threads,max_workers]; exact counted.bound
  nonneg := by rw [num_threads]; exact counted.nonneg
  empty := by rw [empty_event,unended]; exact counted.empty

private theorem counted_init {max_workers : Option Int} {cpu_count : Option Nat} {s : State}
    (made : State.init max_workers cpu_count = .ok s) : Counted s := by
  rw [State.init] at made
  split at made
  · cases made
  next positive =>
    cases made
    exact ⟨rfl,Int.le_of_lt (Int.not_le.mp positive),Int.le_refl 0,⟨fun _ => rfl,fun _ => rfl⟩⟩

section
variable {s t : State} (counted : Counted s)
include counted

theorem Counted.submit (free : s.shutdown_lock = none) : Counted s.submit := by
  rw [State.submit]
  split
  · exact counted
  · exact counted.of_same rfl (by simp [State.unended,State.loop,free]) rfl rfl

theorem Counted.wait (waiting : s.shutdown_lock = some .waiting) : Counted s.wait := by
  rw [State.wait]
  split
  · exact counted.of_same rfl (by simp [State.unended,waiting]) rfl rfl
  · exact counted.of_same rfl (by simp [State.unended,State.loop,waiting]) rfl rfl

theorem Counted.recheck (locking : s.shutdown_lock = some .locking) (room : s.num_threads < s.max_workers) :
    Counted s.recheck := by
  have before : s.unended = s.items.countP ErWorkItem.unended := by simp [State.unended,locking]
  have after : s.recheck.unended = s.unended + 1 := by
    rw [before,State.recheck,if_neg (by omega)]
    rfl
  have counts := counted.count
  have nonneg := counted.nonneg
  refine ⟨?_,?_,?_,?_⟩
  · rw [after,State.recheck,if_neg (by omega)]
    change s.num_threads + 1 = _
    omega
  · rw [State.recheck,if_neg (by omega)]
    change s.num_threads + 1 ≤ s.max_workers
    omega
  · rw [State.recheck,if_neg (by omega)]
    change 0 ≤ s.num_threads + 1
    omega
  · rw [after,State.recheck,if_neg (by omega)]
    simp

private theorem Counted.recheck_full (locking : s.shutdown_lock = some .locking) (full : s.max_workers ≤ s.num_threads) :
    ¬ Counted s.recheck := by
  intro next
  have after : s.recheck.unended = s.unended + 1 := by
    rw [State.recheck,if_pos full]
    simp [State.unended,State.loop,locking]
  have count : s.num_threads = s.recheck.unended := by
    rw [← next.count,State.recheck,if_pos full]
    rfl
  have before := counted.count
  omega

theorem Counted.start (accepted : s.shutdown_lock = some .accepted) : Counted (s.start false) := by
  have same : (s.start false).unended = s.unended := by
    simp [State.unended,State.start,accepted,ErWorkItem.unended]
  exact counted.of_same rfl same rfl rfl

private theorem Counted.start_fails (accepted : s.shutdown_lock = some .accepted) : ¬ Counted (s.start true) := by
  intro next
  have after : (s.start true).unended + 1 = s.unended := by simp [State.unended,State.start,accepted]
  have count : s.num_threads = (s.start true).unended := next.count
  have before := counted.count
  omega

private theorem Counted.setItem {i : Nat} {old item : ErWorkItem} (found : s.items[i]? = some old)
    (same : item.unended = old.unended) : Counted (s.setItem i item) :=
  counted.of_same rfl (unended_setItem s found same) rfl rfl

private theorem Counted.run_cancelled {i : Nat} (found : s.items[i]? = some .cancelled) : ¬ Counted (s.setItem i .dropped) := by
  intro next
  have after : (s.setItem i .dropped).unended + 1 = s.unended := unended_ends s found rfl rfl
  have count : s.num_threads = (s.setItem i .dropped).unended := next.count
  have before := counted.count
  omega

theorem Counted.join {i : Nat} {raised : Bool} (found : s.items[i]? = some (.finished raised)) :
    Counted (s.setItem i .ended).decrease_thread_count := by
  have after : (s.setItem i .ended).decrease_thread_count.unended + 1 = s.unended :=
    unended_ends s found rfl rfl
  have counts := counted.count
  have bound := counted.bound
  refine ⟨?_,?_,?_,?_⟩
  · change s.num_threads - 1 = _
    omega
  · change s.num_threads - 1 ≤ s.max_workers
    omega
  · change 0 ≤ s.num_threads - 1
    omega
  · have busy : s.empty_event = false := by
      rw [Bool.eq_false_iff]
      intro empty
      have := counted.empty.mp empty
      omega
    change (s.empty_event || s.num_threads - 1 == 0) = true ↔ _
    rw [busy,Bool.false_or,beq_iff_eq]
    omega

theorem Counted.step_careful {act : Act} (allowed : careful s act = true) (stepped : step s act = some t) :
    Counted t := by
  cases act with
  | submit =>
    obtain ⟨free,⟨⟩⟩ := Option.ite_none_right_eq_some.mp stepped
    exact counted.submit free
  | wait =>
    obtain ⟨waiting,⟨⟩⟩ := Option.ite_none_right_eq_some.mp stepped
    exact counted.wait waiting
  | recheck =>
    obtain ⟨locking,⟨⟩⟩ := Option.ite_none_right_eq_some.mp stepped
    exact counted.recheck locking (of_decide_eq_true allowed)
  | start fails =>
    obtain ⟨accepted,⟨⟩⟩ := Option.ite_none_right_eq_some.mp stepped
    obtain rfl : fails = false := by simpa [careful] using allowed
    exact counted.start accepted
  | cancel i =>
    obtain ⟨item,found,rfl⟩ := Option.map_eq_some_iff.mp stepped
    exact counted.setItem found (unended_cancel item)
  | run i =>
    obtain ⟨item,found,ran⟩ := Option.bind_eq_some_iff.mp stepped
    obtain ⟨next,begun,rfl⟩ := Option.map_eq_some_iff.mp ran
    cases item with
    | pending =>
      cases begun
      exact counted.setItem found rfl
    | cancelled => simp [careful,found] at allowed
    | running => cases begun
    | finished => cases begun
    | dropped => cases begun
    | ended => cases begun
  | finish i raised =>
    obtain ⟨running,⟨⟩⟩ := Option.ite_none_right_eq_some.mp stepped
    exact counted.setItem running rfl
  | join i =>
    rw [step] at stepped
    split at stepped
    next raised found =>
      cases stepped
      exact counted.join found
    · cases stepped
  | shutdown =>
    obtain ⟨_,⟨⟩⟩ := Option.ite_none_right_eq_some.mp stepped
    exact counted.of_same rfl rfl rfl rfl
  | empty_wait =>
    obtain ⟨_,⟨⟩⟩ := Option.ite_none_right_eq_some.mp stepped
    exact counted
  | python_exit =>
    cases stepped
    exact counted.of_same rfl rfl rfl rfl

theorem Counted.step_careless {act : Act} (refused : careful s act = false) (stepped : step s act = some t) :
    ¬ Counted t := by
  cases act with
  | recheck =>
    obtain ⟨locking,⟨⟩⟩ := Option.ite_none_right_eq_some.mp stepped
    have full : s.max_workers ≤ s.num_threads := by simpa [careful] using refused
    exact counted.recheck_full locking full
  | start fails =>
    obtain ⟨accepted,⟨⟩⟩ := Option.ite_none_right_eq_some.mp stepped
    obtain rfl : fails = true := by simpa [careful] using refused
    exact counted.start_fails accepted
  | run i =>
    have found : s.items[i]? = some .cancelled := by simpa [careful] using refused
    simp only [step,found,Option.bind_some,ErWorkItem.set_running_or_notify_cancel,Option.map_some,
      Option.some.injEq] at stepped
    subst stepped
    exact counted.run_cancelled found
  | submit | wait | cancel | finish | join | shutdown | empty_wait | python_exit => cases refused

end

/-- The counter, its bounds and the empty event are right in every run in which no caller
rechecks a full pool, no thread fails to start and none starts on a cancelled item; each of
these steps makes the counter wrong. -/
theorem threads_counted (max_workers : Option Int) (cpu_count : Option Nat) {s : State}
    (reached : ((system max_workers cpu_count).restrict careful).Reachable s) :
    Counted s ∧ ∀ act t, (system max_workers cpu_count).step s act = some t →
      (Counted t ↔ careful s act = true) := by
  have counted : Counted s := by
    apply reached.invariant
    · intro s made
      exact counted_init made
    · intro s act t counted stepped
      obtain ⟨allowed,taken⟩ := (System.restrict_step_iff _ _ _ _ _).mp stepped
      exact counted.step_careful allowed taken
  refine ⟨counted,fun act t stepped => ⟨fun next => ?_,fun allowed => counted.step_careful allowed stepped⟩⟩
  rw [← Bool.not_eq_false]
  intro refused
  exact counted.step_careless refused stepped next

/-- With two workers, an item is cancelled while it runs, another raises, the pool is shut down. -/
theorem threads_counted_run : ∃ s, ((system (some 2) none).restrict careful).Reachable s ∧
    s.unended = 1 ∧ s.num_threads = 1 := by
  have ran : ((State.init (some 2) none).toOption.bind fun s => ((system (some 2) none).restrict careful).exec s
      [.submit,.wait,.recheck,.start false,.run 0,.submit,.wait,.recheck,.cancel 0,.start false,.run 1,
        .finish 1 true,.join 1,.shutdown]).any (fun s => decide (s.unended = 1)) = true := by decide
  obtain ⟨t,made,found⟩ := (Option.any_eq_true _ _).mp ran
  obtain ⟨s,begun,run⟩ := Option.bind_eq_some_iff.mp made
  have reached : ((system (some 2) none).restrict careful).Reachable t := ⟨s,_,by cases begun; rfl,run⟩
  have unended : t.unended = 1 := of_decide_eq_true found
  exact ⟨t,reached,unended,by rw [(threads_counted (some 2) none reached).1.count,unended]; rfl⟩

/-- The second caller of a pool of one finds it full, goes on without a count, and its item's
end takes the counter below zero. -/
theorem full_pool_uncounted : ¬ ∀ s, (system (some 1) none).Reachable s → Counted s := by
  intro claimed
  have ran : ((State.init (some 1) none).toOption.bind fun s => (system (some 1) none).exec s
      [.submit,.wait,.recheck,.start false,.submit,.wait,.recheck,.start false,.run 0,.run 1,
        .finish 0 false,.finish 1 false,.join 0,.join 1]).any (fun s => decide (s.num_threads = -1)) = true := by decide
  obtain ⟨t,made,found⟩ := (Option.any_eq_true _ _).mp ran
  obtain ⟨s,begun,run⟩ := Option.bind_eq_some_iff.mp made
  have counted := claimed t ⟨s,_,by cases begun; rfl,run⟩
  have negative : t.num_threads = -1 := of_decide_eq_true found
  exact absurd counted.nonneg (by omega)

end Eggroll.ThreadPool
