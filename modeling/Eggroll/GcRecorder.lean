import Eggroll.Library.RefCount
import Eggroll.Library.System

/-! The garbage collection of in-memory stores (`_gc.py`, `RollPair`, `RollPairContext`). A
section under `ReferenceCountLock` is one step, and the GC thread's turn is two: it gets a
store from its queue, and it destroys it. The runs have neither `RollPair.destroy` nor a stop
of the session. -/
namespace Eggroll.GcRecorder
open Library

abbrev Key := String × String

def ROLLPAIR_IN_MEMORY : String := "IN_MEMORY"

structure ErStore where
  store_type : String
  key : Key
deriving Repr, DecidableEq

/-- A handle; `live` is history: its `__del__` has not run. -/
structure RollPair where
  store : ErStore
  is_gc_enabled : Bool
  is_destroyed : Bool
  live : Bool
deriving Repr, DecidableEq

/-- The GC thread: it waits for its queue, has a store to destroy, or does not run. -/
inductive GcThread | waiting | destroying (key : Key) | ended
deriving Repr, DecidableEq

/-- `enqueued` is all that `_gc_worker_queue` ever got, of which the GC thread has `taken` so many. -/
structure State where
  gc_recorder : Key → Option Int
  enqueued : List Key
  taken : Nat
  gc_thread : GcThread
  session_stopped : Bool
  handles : List RollPair

inductive Act
  | create (store : ErStore) (gc_enabled : Option Bool)
  | register_gc (i : Nat)
  | del (i : Nat)
  | get
  | destroy (raises : Bool)
deriving Repr, DecidableEq

/-- The context's constructor sets `_rpc_gc_enable`, and nothing changes it. -/
def rpc_gc_enable : Bool := true

def ErStore.gc_enabled (store : ErStore) (gc_enabled : Option Bool) : Bool :=
  gc_enabled.getD rpc_gc_enable && store.store_type == ROLLPAIR_IN_MEMORY

namespace State

/-- `EGGROLL_GC_DISABLE` keeps the GC thread from starting. -/
def init (gc_disable : Bool) : State where
  gc_recorder := fun _ => none
  enqueued := []
  taken := 0
  gc_thread := if gc_disable then .ended else .waiting
  session_stopped := false
  handles := []

def increase_ref_count (s : State) (store : ErStore) : State :=
  if store.store_type ≠ ROLLPAIR_IN_MEMORY then s
  else { s with
    gc_recorder := Function.update s.gc_recorder store.key (some ((s.gc_recorder store.key).getD 0 + 1)) }

/-- The entry goes with the last reference, at once; an unknown key counts as zero. -/
def decrease_ref_count (s : State) (store : ErStore) : State :=
  if store.store_type ≠ ROLLPAIR_IN_MEMORY then s
  else
    let ref_count := match s.gc_recorder store.key with
      | none => 0
      | some count => count - 1
    if ref_count = 0 then { s with
      gc_recorder := Function.update s.gc_recorder store.key none
      enqueued := s.enqueued ++ [store.key] }
    else { s with gc_recorder := Function.update s.gc_recorder store.key (some ref_count) }

def increase_store_gc_count (s : State) (store : ErStore) : State :=
  if rpc_gc_enable then s.increase_ref_count store else s

def decrease_store_gc_count (s : State) (store : ErStore) : State :=
  if rpc_gc_enable then s.decrease_ref_count store else s

def setHandle (s : State) (i : Nat) (handle : RollPair) : State := { s with handles := s.handles.set i handle }

def create (s : State) (store : ErStore) (gc_enabled : Option Bool) : State :=
  let s := { s with handles := s.handles ++ [⟨store,store.gc_enabled gc_enabled,false,true⟩] }
  if store.gc_enabled gc_enabled then s.increase_store_gc_count store else s

def register_gc (s : State) (i : Nat) (handle : RollPair) : State :=
  (s.setHandle i { handle with is_gc_enabled := true }).increase_store_gc_count handle.store

def del (s : State) (i : Nat) (handle : RollPair) : State :=
  let s := s.setHandle i { handle with live := false }
  if s.session_stopped || handle.is_destroyed || !handle.is_gc_enabled then s
  else s.decrease_store_gc_count handle.store

def get (s : State) : Option State :=
  (s.enqueued[s.taken]?).map fun key => { s with taken := s.taken + 1, gc_thread := .destroying key }

end State

/-- An exception in `destroy_store` ends the GC thread. -/
def step (s : State) : Act → Option State
  | .create store gc_enabled => some (s.create store gc_enabled)
  | .register_gc i => (s.handles[i]?).bind fun handle => if handle.live then some (s.register_gc i handle) else none
  | .del i => (s.handles[i]?).bind fun handle => if handle.live then some (s.del i handle) else none
  | .get => if s.gc_thread = .waiting then s.get else none
  | .destroy raises =>
    match s.gc_thread with
    | .destroying _ => some { s with gc_thread := if raises then .ended else .waiting }
    | _ => none

def system : System State Act where
  start s := ∃ gc_disable, s = State.init gc_disable
  step := step

def RollPair.enabled (handle : RollPair) : Bool :=
  handle.live && handle.is_gc_enabled && handle.store.store_type == ROLLPAIR_IN_MEMORY

def RollPair.enabledOn (key : Key) (handle : RollPair) : Bool := handle.enabled && handle.store.key == key

def State.enabledOn (s : State) (key : Key) : Nat := s.handles.countP (RollPair.enabledOn key)

/-- The GC thread destroys no store that a handle with gc enabled is on. -/
def Spares (s : State) : Act → Prop
  | .destroy _ => ∀ key, s.gc_thread = .destroying key → s.enabledOn key = 0
  | _ => True

/-- A store is enqueued when the number of its handles falls to zero, once, and only then. -/
def Enqueues (s t : State) : Prop := ∀ key, t.enqueued.count key =
  s.enqueued.count key + if 0 < s.enabledOn key ∧ t.enabledOn key = 0 then 1 else 0

def State.pending (s : State) (key : Key) : Bool :=
  s.gc_thread != .ended && (s.gc_thread == .destroying key || (s.enqueued.drop s.taken).contains key)

/-- gc is enabled for no handle twice, and for none on a pending store. -/
def careful (s : State) : Act → Bool
  | .create store gc_enabled => !(store.gc_enabled gc_enabled && s.pending store.key)
  | .register_gc i => (s.handles[i]?).all fun handle =>
    handle.store.store_type != ROLLPAIR_IN_MEMORY || !(handle.is_gc_enabled || s.pending handle.store.key)
  | _ => true

private theorem enabledOn_of_enabled {handle : RollPair} (enabled : handle.enabled = true) (key : Key) :
    (if handle.enabledOn key then 1 else 0) = if key = handle.store.key then 1 else 0 := by
  rw [RollPair.enabledOn,enabled,Bool.true_and]
  by_cases same : key = handle.store.key
  · simp [same]
  · simp [same,Ne.symm same]

private theorem enabledOn_of_disabled {handle : RollPair} (disabled : handle.enabled = false) (key : Key) :
    handle.enabledOn key = false := by
  rw [RollPair.enabledOn,disabled,Bool.false_and]

private theorem pending_iff (s : State) (key : Key) : s.pending key = true ↔
    s.gc_thread ≠ .ended ∧ (s.gc_thread = .destroying key ∨ key ∈ s.enqueued.drop s.taken) := by
  simp [State.pending]

structure Inv (s : State) : Prop where
  counted : RefCounted s.gc_recorder s.enabledOn
  unused : ∀ key, s.pending key = true → s.enabledOn key = 0
  undestroyed : ∀ handle ∈ s.handles, handle.is_destroyed = false
  running : s.session_stopped = false

theorem inv_init (gc_disable : Bool) : Inv (State.init gc_disable) where
  counted _ := rfl
  unused _ _ := rfl
  undestroyed _ member := absurd member List.not_mem_nil
  running := rfl

theorem Enqueues.of_same {s t : State} (enqueued : t.enqueued = s.enqueued)
    (kept : ∀ key, s.enabledOn key ≤ t.enabledOn key) : Enqueues s t := by
  intro key
  have := kept key
  rw [enqueued,if_neg (by omega),Nat.add_zero]

section
variable {s : State} (inv : Inv s)
include inv

theorem Inv.same {handles : List RollPair} (undestroyed : ∀ handle ∈ handles, handle.is_destroyed = false)
    (same : ∀ key, handles.countP (RollPair.enabledOn key) = s.enabledOn key) :
    Inv { s with handles := handles } ∧ Enqueues s { s with handles := handles } := by
  refine ⟨⟨inv.counted.of_same same,fun key pending => ?_,undestroyed,inv.running⟩,.of_same rfl fun key => ?_⟩
  · exact (same key).trans (inv.unused key pending)
  · exact Nat.le_of_eq (same key).symm

private theorem Inv.gain {handles : List RollPair} (undestroyed : ∀ handle ∈ handles, handle.is_destroyed = false)
    {store : ErStore} (in_memory : store.store_type = ROLLPAIR_IN_MEMORY)
    (gained : ∀ key, handles.countP (RollPair.enabledOn key) = s.enabledOn key + if key = store.key then 1 else 0)
    (free : s.pending store.key = false) :
    Inv ({ s with handles := handles }.increase_store_gc_count store) ∧
      Enqueues s ({ s with handles := handles }.increase_store_gc_count store) := by
  have increased : { s with handles := handles }.increase_store_gc_count store =
      { s with
        handles := handles
        gc_recorder := Function.update s.gc_recorder store.key (some ((s.gc_recorder store.key).getD 0 + 1)) } := by
    simp [State.increase_store_gc_count,rpc_gc_enable,State.increase_ref_count,in_memory]
  rw [increased]
  refine ⟨⟨?_,fun key pending => ?_,undestroyed,inv.running⟩,.of_same rfl fun key => ?_⟩
  · exact (inv.counted.acquire store.key).of_same gained
  · have elsewhere : key ≠ store.key := by
      rintro rfl
      exact Bool.false_ne_true (free.symm.trans pending)
    exact (gained key).trans (by rw [if_neg elsewhere,inv.unused key pending])
  · exact le_of_le_of_eq (Nat.le_add_right _ _) (gained key).symm

private theorem Inv.lose {handles : List RollPair} (undestroyed : ∀ handle ∈ handles, handle.is_destroyed = false)
    {store : ErStore} (in_memory : store.store_type = ROLLPAIR_IN_MEMORY) (held : 0 < s.enabledOn store.key)
    (lost : ∀ key, handles.countP (RollPair.enabledOn key) = s.enabledOn key - if key = store.key then 1 else 0) :
    Inv ({ s with handles := handles }.decrease_store_gc_count store) ∧
      Enqueues s ({ s with handles := handles }.decrease_store_gc_count store) := by
  have present := inv.counted.present held
  by_cases last : s.enabledOn store.key = 1
  · have decreased : { s with handles := handles }.decrease_store_gc_count store =
        { s with
          handles := handles
          gc_recorder := Function.update s.gc_recorder store.key none
          enqueued := s.enqueued ++ [store.key] } := by
      simp [State.decrease_store_gc_count,rpc_gc_enable,State.decrease_ref_count,in_memory,present,last]
    rw [decreased]
    refine ⟨⟨?_,fun key pending => ?_,undestroyed,inv.running⟩,fun key => ?_⟩
    · exact (inv.counted.release_last last).of_same lost
    · refine (lost key).trans ?_
      by_cases same : key = store.key
      · rw [if_pos same,same,last]
      · have before : s.pending key = true := by
          rw [pending_iff] at pending ⊢
          refine ⟨pending.1,pending.2.imp_right fun member => ?_⟩
          rw [List.drop_append] at member
          obtain old | new := List.mem_append.mp member
          · exact old
          · exact absurd (List.mem_singleton.mp (List.mem_of_mem_drop new)) same
        rw [inv.unused key before,Nat.zero_sub]
    · change (s.enqueued ++ [store.key]).count key =
        s.enqueued.count key + if 0 < s.enabledOn key ∧ handles.countP (RollPair.enabledOn key) = 0 then 1 else 0
      rw [lost,List.count_append,List.count_singleton]
      by_cases same : key = store.key
      · simp [same,last]
      · have kept : ¬ (0 < s.enabledOn key ∧ s.enabledOn key = 0) := by omega
        simp [same,Ne.symm same,kept]
  · have decreased : { s with handles := handles }.decrease_store_gc_count store =
        { s with
          handles := handles
          gc_recorder := Function.update s.gc_recorder store.key (some ((s.enabledOn store.key : Int) - 1)) } := by
      have several : (s.enabledOn store.key : Int) - 1 ≠ 0 := by omega
      simp [State.decrease_store_gc_count,rpc_gc_enable,State.decrease_ref_count,in_memory,present,several]
    rw [decreased]
    refine ⟨⟨?_,fun key pending => ?_,undestroyed,inv.running⟩,fun key => ?_⟩
    · exact (inv.counted.release (by omega)).of_same lost
    · exact (lost key).trans (by rw [inv.unused key pending,Nat.zero_sub])
    · have kept : ¬ (0 < s.enabledOn key ∧ handles.countP (RollPair.enabledOn key) = 0) := by
        rw [lost]
        by_cases same : key = store.key
        · rw [same,if_pos rfl]
          omega
        · rw [if_neg same]
          omega
      exact (Nat.add_zero _).symm.trans (congrArg _ (if_neg kept).symm)

theorem Inv.create {store : ErStore} {gc_enabled : Option Bool}
    (allowed : careful s (.create store gc_enabled) = true) :
    Inv (s.create store gc_enabled) ∧ Enqueues s (s.create store gc_enabled) := by
  let handle : RollPair := ⟨store,store.gc_enabled gc_enabled,false,true⟩
  have undestroyed : ∀ other ∈ s.handles ++ [handle], other.is_destroyed = false := by
    intro other member
    obtain old | rfl := List.mem_append.mp member |>.imp_right List.mem_singleton.mp
    · exact inv.undestroyed other old
    · rfl
  rw [State.create]
  by_cases enabled : store.gc_enabled gc_enabled = true
  · rw [if_pos enabled]
    have in_memory : store.store_type = ROLLPAIR_IN_MEMORY := by
      rw [ErStore.gc_enabled,Bool.and_eq_true,beq_iff_eq] at enabled
      exact enabled.2
    have counts : handle.enabled = true := by
      simp [handle,RollPair.enabled,enabled,in_memory]
    have free : s.pending store.key = false := by simpa [careful,enabled] using allowed
    refine inv.gain undestroyed in_memory (fun key => ?_) free
    rw [countP_concat,enabledOn_of_enabled counts]
    rfl
  · rw [if_neg enabled]
    refine inv.same undestroyed fun key => ?_
    have counts : handle.enabled = false := by
      simp [handle,RollPair.enabled,Bool.eq_false_iff.mpr enabled]
    rw [countP_concat,enabledOn_of_disabled counts]
    rfl

private theorem Inv.undestroyed_set (i : Nat) {handle : RollPair} (kept : handle.is_destroyed = false) :
    ∀ other ∈ s.handles.set i handle, other.is_destroyed = false := by
  intro other member
  obtain old | rfl := List.mem_or_eq_of_mem_set member
  · exact inv.undestroyed other old
  · exact kept

private theorem Inv.register_gc {i : Nat} {handle : RollPair} (found : s.handles[i]? = some handle) (live : handle.live = true)
    (allowed : careful s (.register_gc i) = true) :
    Inv (s.register_gc i handle) ∧ Enqueues s (s.register_gc i handle) := by
  let registered : RollPair := { handle with is_gc_enabled := true }
  have undestroyed := inv.undestroyed_set i (show registered.is_destroyed = false from
    inv.undestroyed handle (List.mem_of_getElem? found))
  have counts (key : Key) := countP_replace (RollPair.enabledOn key) found registered
  rw [careful,found,Option.all_some,Bool.or_eq_true,bne_iff_ne,Bool.not_eq_true',Bool.or_eq_false_iff] at allowed
  rw [State.register_gc]
  by_cases in_memory : handle.store.store_type = ROLLPAIR_IN_MEMORY
  · obtain ⟨disabled,free⟩ := allowed.resolve_left (not_not_intro in_memory)
    have before : handle.enabled = false := by simp [RollPair.enabled,disabled]
    have after : registered.enabled = true := by simp [registered,RollPair.enabled,live,in_memory]
    refine inv.gain undestroyed in_memory (fun key => ?_) free
    have gained := counts key
    rw [enabledOn_of_disabled before,enabledOn_of_enabled after] at gained
    exact gained
  · have before : handle.enabled = false := by simp [RollPair.enabled,in_memory]
    have after : registered.enabled = false := by simp [registered,RollPair.enabled,in_memory]
    have uncounted (t : State) : t.increase_store_gc_count handle.store = t := by
      simp [State.increase_store_gc_count,State.increase_ref_count,in_memory]
    rw [uncounted]
    refine inv.same undestroyed fun key => ?_
    exact countP_replace_same _ found (by rw [enabledOn_of_disabled after,enabledOn_of_disabled before])

private theorem Inv.del {i : Nat} {handle : RollPair} (found : s.handles[i]? = some handle) (live : handle.live = true) :
    Inv (s.del i handle) ∧ Enqueues s (s.del i handle) := by
  let dropped : RollPair := { handle with live := false }
  have kept := inv.undestroyed handle (List.mem_of_getElem? found)
  have undestroyed := inv.undestroyed_set i (show dropped.is_destroyed = false from kept)
  have after : dropped.enabled = false := rfl
  have counts (key : Key) := countP_replace_lost (RollPair.enabledOn key) found (enabledOn_of_disabled after key)
  have handles : s.del i handle = if handle.is_gc_enabled then
      (s.setHandle i dropped).decrease_store_gc_count handle.store else s.setHandle i dropped := by
    have reaches : (s.session_stopped || handle.is_destroyed || !handle.is_gc_enabled) = !handle.is_gc_enabled := by
      rw [inv.running,kept]
      rfl
    change (if (s.session_stopped || handle.is_destroyed || !handle.is_gc_enabled) = true then _ else _) = _
    rw [reaches]
    by_cases registered : handle.is_gc_enabled = true
    · rw [if_neg (by simp [registered]),if_pos registered]
    · rw [if_pos (by simp [registered]),if_neg registered]
  rw [handles]
  by_cases enabled : handle.enabled = true
  · have parts : handle.is_gc_enabled = true ∧ handle.store.store_type = ROLLPAIR_IN_MEMORY := by
      simpa [RollPair.enabled,live] using enabled
    have held : 0 < s.enabledOn handle.store.key :=
      List.countP_pos_iff.mpr ⟨handle,List.mem_of_getElem? found,by simp [RollPair.enabledOn,enabled]⟩
    rw [if_pos parts.1]
    refine inv.lose undestroyed parts.2 held fun key => ?_
    rw [counts,enabledOn_of_enabled enabled]
    rfl
  · have before : handle.enabled = false := Bool.eq_false_iff.mpr enabled
    have same := inv.same undestroyed fun key => by
      rw [counts,enabledOn_of_disabled before]
      rfl
    split
    next registered =>
      have other_type : handle.store.store_type ≠ ROLLPAIR_IN_MEMORY := by
        simpa [RollPair.enabled,live,registered] using before
      have uncounted (t : State) : t.decrease_store_gc_count handle.store = t := by
        simp [State.decrease_store_gc_count,State.decrease_ref_count,other_type]
      rw [uncounted]
      exact same
    · exact same

theorem Inv.get {t : State} (waiting : s.gc_thread = .waiting) (got : s.get = some t) : Inv t ∧ Enqueues s t := by
  obtain ⟨key,next,rfl⟩ := Option.map_eq_some_iff.mp got
  have queue : s.enqueued.drop s.taken = key :: s.enqueued.drop (s.taken + 1) := by
    obtain ⟨inside,rfl⟩ := List.getElem?_eq_some_iff.mp next
    exact List.drop_eq_getElem_cons inside
  refine ⟨⟨inv.counted,fun other pending => inv.unused other ?_,inv.undestroyed,inv.running⟩,.of_same rfl fun _ => Nat.le_refl _⟩
  rw [pending_iff] at pending ⊢
  refine ⟨by simp [waiting],.inr ?_⟩
  rw [queue]
  obtain same | later := pending.2
  · obtain rfl := GcThread.destroying.inj same
    exact List.mem_cons_self
  · exact List.mem_cons_of_mem key later

theorem Inv.destroyed {key : Key} (destroying : s.gc_thread = .destroying key) (raises : Bool) :
    Inv { s with gc_thread := if raises then .ended else .waiting } := by
  refine ⟨inv.counted,fun other pending => inv.unused other ?_,inv.undestroyed,inv.running⟩
  rw [pending_iff] at pending ⊢
  obtain ⟨-,same | later⟩ := pending
  · cases raises <;> cases same
  · exact ⟨by simp [destroying],.inr later⟩

theorem Inv.step {act : Act} {t : State} (allowed : careful s act = true) (stepped : step s act = some t) :
    Inv t ∧ Enqueues s t := by
  cases act with
  | create store gc_enabled =>
    cases stepped
    exact inv.create allowed
  | register_gc i =>
    obtain ⟨handle,found,done⟩ := Option.bind_eq_some_iff.mp stepped
    obtain ⟨live,⟨⟩⟩ := Option.ite_none_right_eq_some.mp done
    exact inv.register_gc found live allowed
  | del i =>
    obtain ⟨handle,found,done⟩ := Option.bind_eq_some_iff.mp stepped
    obtain ⟨live,⟨⟩⟩ := Option.ite_none_right_eq_some.mp done
    exact inv.del found live
  | get =>
    obtain ⟨waiting,got⟩ := Option.ite_none_right_eq_some.mp stepped
    exact inv.get waiting got
  | destroy raises =>
    rw [GcRecorder.step] at stepped
    split at stepped
    next key destroying =>
      cases stepped
      exact ⟨inv.destroyed destroying raises,.of_same rfl fun _ => Nat.le_refl _⟩
    · cases stepped

theorem Inv.spares (act : Act) : Spares s act := by
  cases act with
  | destroy raises =>
    intro key destroying
    exact inv.unused key ((pending_iff s key).mpr ⟨by simp [destroying],.inl destroying⟩)
  | create | register_gc | del | get => trivial

end
/-- In every run that enables gc for no handle twice and for none on a store that is about to
be destroyed, the GC thread destroys only stores without such handles, and a store is enqueued
exactly when the last of its handles goes. -/
theorem gc_collects {s : State} (reached : (system.restrict careful).Reachable s) (act : Act) (t : State)
    (stepped : (system.restrict careful).step s act = some t) : Spares s act ∧ Enqueues s t := by
  have inv : Inv s := by
    apply reached.invariant
    · rintro _ ⟨gc_disable,rfl⟩
      exact inv_init gc_disable
    · intro s act t inv stepped
      obtain ⟨allowed,taken⟩ := (System.restrict_step_iff _ _ _ _ _).mp stepped
      exact (inv.step allowed taken).1
  obtain ⟨allowed,taken⟩ := (System.restrict_step_iff _ _ _ _ _).mp stepped
  exact ⟨inv.spares act,(inv.step allowed taken).2⟩

def exampleStore : ErStore := ⟨ROLLPAIR_IN_MEMORY,("session","table")⟩

/-- Two handles on a store, one of them registered later, are dropped, and the store is destroyed. -/
theorem gc_collects_run : ∃ s t, (system.restrict careful).Reachable s ∧ step s (.destroy false) = some t ∧
    s.enabledOn exampleStore.key = 0 ∧ t.enqueued = [exampleStore.key] := by
  have ran : ((system.restrict careful).exec (State.init false)
      [.create exampleStore none,.create exampleStore (some false),.register_gc 1,.del 0,.del 1,.get]).any
      (fun s => decide (s.gc_thread = .destroying exampleStore.key) && decide (s.enqueued = [exampleStore.key])) =
        true := by decide +kernel
  obtain ⟨s,run,found⟩ := (Option.any_eq_true _ _).mp ran
  rw [Bool.and_eq_true,decide_eq_true_eq,decide_eq_true_eq] at found
  have reached : (system.restrict careful).Reachable s := ⟨_,_,⟨false,rfl⟩,run⟩
  have stepped : step s (.destroy false) = some { s with gc_thread := .waiting } := by simp [step,found.1]
  have spared := (gc_collects reached (.destroy false) _ ((System.restrict_step_iff _ _ _ _ _).mpr ⟨rfl,stepped⟩)).1
  exact ⟨s,_,reached,stepped,spared _ found.1,found.2⟩

/-- A handle made after the last one went and before the GC thread's turn loses its store; a
handle registered twice leaves a count behind. -/
theorem revived_store_destroyed :
    (¬ ∀ s, system.Reachable s → ∀ act t, system.step s act = some t → Spares s act) ∧
      ¬ ∀ s, system.Reachable s → ∀ act t, system.step s act = some t → Enqueues s t := by
  constructor
  · intro claimed
    have spared := claimed _ ⟨State.init false,[.create exampleStore none,.del 0,.get,.create exampleStore none],
      ⟨false,rfl⟩,rfl⟩ (.destroy false) _ rfl exampleStore.key rfl
    exact absurd spared (by decide)
  · intro claimed
    have enqueued := claimed _ ⟨State.init false,[.create exampleStore none,.register_gc 0],⟨false,rfl⟩,rfl⟩
      (.del 0) _ rfl exampleStore.key
    exact absurd enqueued (by decide)

end Eggroll.GcRecorder
