import Mathlib.Logic.Function.Basic
import Eggroll.Library.System

/-! The containers of a node manager (`ContainersManager.java`, `ContainerLifecycleHandler.java`,
`ProcessContainer.java`): calls, the tasks they submit and the periodic sweep, each a few
reads and writes of a handler's status that the others do not wait for. -/
namespace Eggroll.Containers
open Library

inductive ContainerStatus
  | Pending
  | Started
  | Failed
  | Poison
  | Success
  | Exception
deriving Repr, DecidableEq

/-- `isCompleted`. -/
def ContainerStatus.completed : ContainerStatus → Bool
  | .Failed | .Success | .Exception => true
  | _ => false

/-- `received` has what each of the callbacks was applied to; `submitted` is history. -/
structure ContainerLifecycleHandler where
  status : ContainerStatus
  received : Nat → List ContainerStatus
  submitted : Bool

def ContainerLifecycleHandler.new : ContainerLifecycleHandler := ⟨.Pending,fun _ => [],false⟩

inductive Operation
  | startContainer
  | stopContainer
  | killContainer
deriving Repr, DecidableEq

/-- Where a call or a task stands: in `startContainer`, in the task that it submits with
the calls of `setStatus` there, or in `stopContainer` or `killContainer`. -/
inductive Place
  | check_started
  | check_completed
  | submit
  | refused
  | start
  | guard (status : ContainerStatus)
  | differ (status : ContainerStatus)
  | write (status : ContainerStatus)
  | report (status : ContainerStatus) (callback : Nat)
  | wait
  | ended (raised : Bool)
  | check_stop
  | check_kill
  | poison
  | done
deriving Repr, DecidableEq

structure Task where
  handler : Nat
  place : Place
deriving Repr, DecidableEq

/-- Handlers are numbered as they are made; `next` is the first that has not been. -/
structure State where
  handlers : Int → Option Nat
  objects : Nat → ContainerLifecycleHandler
  next : Nat
  tasks : Nat → Option Task

/-- `container.start()` returns or raises, `exit` is the end of the process; the sweep
looks at one entry at a time. -/
inductive Act
  | addContainer (containerId : Int)
  | call (task : Nat) (containerId : Int) (operation : Operation)
  | advance (task : Nat)
  | start_raises (task : Nat)
  | exit (task : Nat) (exitCode : Int)
  | sweep_poisoned (task : Nat) (containerId : Int)
  | sweep_completed (containerId : Int)
deriving Repr, DecidableEq

def Operation.entry : Operation → Place
  | .startContainer => .check_started
  | .stopContainer => .check_stop
  | .killContainer => .check_kill

/-- Where `setStatus` returns to. -/
def ContainerStatus.afterwards (status : ContainerStatus) : Place :=
  if status = .Started then .wait else .ended false

namespace State

def init : State := ⟨fun _ => none,fun _ => .new,0,fun _ => none⟩

def goto (s : State) (task handler : Nat) (place : Place) : State :=
  { s with tasks := Function.update s.tasks task (some ⟨handler,place⟩) }

def set (s : State) (handler : Nat) (object : ContainerLifecycleHandler) : State :=
  { s with objects := Function.update s.objects handler object }

/-- `putIfAbsent` of a new handler. -/
def addContainer (s : State) (containerId : Int) : State :=
  { s with
    handlers := Function.update s.handlers containerId ((s.handlers containerId).or (some s.next))
    objects := Function.update s.objects s.next .new
    next := s.next + 1 }

def advance (callbacks : Nat) (s : State) (task : Nat) (t : Task) : Option State :=
  let object := s.objects t.handler
  match t.place with
  | .check_started =>
    some (s.goto task t.handler (if object.status = .Started then .refused else .check_completed))
  | .check_completed =>
    some (s.goto task t.handler (if object.status.completed then .refused else .submit))
  | .submit => some ((s.set t.handler { object with submitted := true }).goto task t.handler .start)
  | .start => some (s.goto task t.handler (.guard .Started))
  | .guard status =>
    some (s.goto task t.handler (if object.status.completed then status.afterwards else .differ status))
  | .differ status =>
    some (s.goto task t.handler (if object.status = status then status.afterwards else .write status))
  | .write status =>
    some ((s.set t.handler { object with status := status }).goto task t.handler (.report status 0))
  | .report status callback =>
    if callback < callbacks then
      some ((s.set t.handler { object with
        received := Function.update object.received callback (object.received callback ++ [status]) }).goto
          task t.handler (.report status (callback + 1)))
    else some (s.goto task t.handler status.afterwards)
  | .check_stop => some (s.goto task t.handler .done)
  | .check_kill => some (s.goto task t.handler (if object.status = .Started then .done else .poison))
  | .poison => some ((s.set t.handler { object with status := .Poison }).goto task t.handler .done)
  | .refused | .wait | .ended _ | .done => none

def start_raises (s : State) (task : Nat) (t : Task) : Option State :=
  if t.place = .start then some (s.goto task t.handler (.ended true)) else none

def exit (s : State) (task : Nat) (exitCode : Int) (t : Task) : Option State :=
  if t.place = .wait then
    some (s.goto task t.handler (.guard (if exitCode ≠ 0 then .Failed else .Success)))
  else none

def call (s : State) (task : Nat) (containerId : Int) (place : Place) : Option State :=
  if (s.tasks task).isNone then (s.handlers containerId).map fun handler => s.goto task handler place
  else none

def sweep_poisoned (s : State) (task : Nat) (containerId : Int) : Option State :=
  match s.handlers containerId with
  | some handler => if (s.objects handler).status = .Poison then s.call task containerId .check_kill else none
  | none => none

def sweep_completed (s : State) (containerId : Int) : Option State :=
  match s.handlers containerId with
  | some handler =>
    if (s.objects handler).status.completed then
      some { s with handlers := Function.update s.handlers containerId none }
    else none
  | none => none

end State

/-- Containers with so many callbacks each. -/
def system (callbacks : Nat) : System State Act where
  start s := s = State.init
  step s
    | .addContainer containerId => some (s.addContainer containerId)
    | .call task containerId operation => s.call task containerId operation.entry
    | .advance task => (s.tasks task).bind (s.advance callbacks task)
    | .start_raises task => (s.tasks task).bind (s.start_raises task)
    | .exit task exitCode => (s.tasks task).bind (s.exit task exitCode)
    | .sweep_poisoned task containerId => s.sweep_poisoned task containerId
    | .sweep_completed containerId => s.sweep_completed containerId

/-- What a task has told each callback of the end of the container, once it is over; and
what became final then. -/
structure Final (callbacks : Nat) (S : System State Act) (s : State) : Prop where
  reported : ∀ task handler raised, s.tasks task = some ⟨handler,.ended raised⟩ →
    (s.objects handler).status.completed = true ∧ ∀ callback < callbacks,
      ((s.objects handler).received callback).filter ContainerStatus.completed = [(s.objects handler).status]
  kept : ∀ labels t, S.Run s labels t → ∀ task handler raised, s.tasks task = some ⟨handler,.ended raised⟩ →
    (t.objects handler).status = (s.objects handler).status ∧ ∀ containerId, t.handlers containerId = some handler →
      ∃ swept, t.sweep_completed containerId = some swept ∧ swept.handlers containerId = none

/-- `start` does not raise, no handler gets a second start task, and no handler that is
completed is poisoned. -/
def careful (s : State) : Act → Bool
  | .start_raises _ => false
  | .advance task =>
    match s.tasks task with
    | some ⟨handler,.submit⟩ => !(s.objects handler).submitted
    | some ⟨handler,.poison⟩ => !(s.objects handler).status.completed
    | _ => true
  | _ => true

section
variable {s s' : State} {task : Nat} {t : Task} {containerId : Int}

theorem call_cases {place : Place} (called : s.call task containerId place = some s') :
    ∃ handler, s.handlers containerId = some handler ∧ s' = s.goto task handler place := by
  unfold State.call at called
  split at called
  · obtain ⟨handler,listed,rfl⟩ := Option.map_eq_some_iff.mp called
    exact ⟨handler,listed,rfl⟩
  · cases called

theorem sweep_poisoned_cases (swept : s.sweep_poisoned task containerId = some s') :
    ∃ handler, s.handlers containerId = some handler ∧ s' = s.goto task handler .check_kill := by
  unfold State.sweep_poisoned at swept
  split at swept
  · split at swept
    · exact call_cases swept
    · cases swept
  · cases swept

theorem sweep_completed_cases (swept : s.sweep_completed containerId = some s') :
    s' = { s with handlers := Function.update s.handlers containerId none } := by
  unfold State.sweep_completed at swept
  split at swept
  · split at swept <;> cases swept
    rfl
  · cases swept

theorem start_raises_cases (raised : s.start_raises task t = some s') :
    t.place = .start ∧ s' = s.goto task t.handler (.ended true) := by
  unfold State.start_raises at raised
  split at raised <;> cases raised
  exact ⟨‹_›,rfl⟩

theorem exit_cases {exitCode : Int} (exited : s.exit task exitCode t = some s') :
    t.place = .wait ∧ s' = s.goto task t.handler (.guard (if exitCode ≠ 0 then .Failed else .Success)) := by
  unfold State.exit at exited
  split at exited <;> cases exited
  exact ⟨‹_›,rfl⟩

end

/-- In the task that `startContainer` submits. -/
def Place.started : Place → Bool
  | .start | .guard _ | .differ _ | .write _ | .report _ _ | .wait | .ended _ => true
  | _ => false

def Quiet (object : ContainerLifecycleHandler) : Prop :=
  object.status.completed = false ∧ ∀ callback, (object.received callback).filter ContainerStatus.completed = []

def Stands (callbacks : Nat) (object : ContainerLifecycleHandler) : Place → Prop
  | .start | .wait => Quiet object
  | .guard status | .differ status | .write status =>
    Quiet object ∧ (status = .Started ∨ status.completed = true)
  | .report status callback =>
    status = .Started ∧ Quiet object ∨ status.completed = true ∧ object.status = status ∧
      (∀ c < callback, (object.received c).filter ContainerStatus.completed = [status]) ∧
      ∀ c, callback ≤ c → (object.received c).filter ContainerStatus.completed = []
  | .ended raised => raised = false ∧ object.status.completed = true ∧
      ∀ c < callbacks, (object.received c).filter ContainerStatus.completed = [object.status]
  | _ => True

structure Sound (callbacks : Nat) (s : State) : Prop where
  made : ∀ task t, s.tasks task = some t → t.handler < s.next
  listed : ∀ containerId handler, s.handlers containerId = some handler → handler < s.next
  submitted : ∀ task t, s.tasks task = some t → t.place.started = true → (s.objects t.handler).submitted = true
  alone : ∀ task other t u, s.tasks task = some t → s.tasks other = some u → t.place.started = true →
    u.place.started = true → t.handler = u.handler → task = other
  quiet : ∀ handler, (s.objects handler).submitted = false → Quiet (s.objects handler)
  stands : ∀ task t, s.tasks task = some t → Stands callbacks (s.objects t.handler) t.place

private theorem Stands.of_outside {callbacks : Nat} {object : ContainerLifecycleHandler} {place : Place}
    (outside : place.started = false) : Stands callbacks object place := by
  cases place <;> trivial

private theorem Stands.afterwards {callbacks : Nat} {object : ContainerLifecycleHandler} {status : ContainerStatus}
    (quiet : status = .Started → Quiet object)
    (reported : status ≠ .Started → object.status.completed = true ∧
      ∀ c < callbacks, (object.received c).filter ContainerStatus.completed = [object.status]) :
    Stands callbacks object status.afterwards := by
  unfold ContainerStatus.afterwards
  split
  · rename_i started
    exact quiet started
  · rename_i other
    exact ⟨rfl,reported other⟩

namespace Sound
variable {callbacks : Nat} {s s' : State} {task : Nat} {t : Task}

theorem init : Sound callbacks State.init where
  made _ _ known := by simp [State.init] at known
  listed _ _ known := by simp [State.init] at known
  submitted _ _ known := by simp [State.init] at known
  alone _ _ _ _ known := by simp [State.init] at known
  quiet _ _ := ⟨rfl,fun _ => rfl⟩
  stands _ _ known := by simp [State.init] at known

private theorem go (sound : Sound callbacks s) {handler : Nat} (place : Place) (object : ContainerLifecycleHandler)
    (below : handler < s.next) (grows : (s.objects handler).submitted = true → object.submitted = true)
    (submitted : place.started = true → object.submitted = true)
    (alone : place.started = true → ∀ other u, other ≠ task → s.tasks other = some u → u.handler = handler →
      u.place.started = false)
    (quiet : object.submitted = false → Quiet object) (stands : Stands callbacks object place)
    (others : ∀ other u, other ≠ task → s.tasks other = some u → u.handler = handler →
      Stands callbacks (s.objects handler) u.place → Stands callbacks object u.place) :
    Sound callbacks ((s.set handler object).goto task handler place) where
  made other u known := by
    simp only [State.goto,State.set,Function.update_apply] at known
    split at known
    · cases known
      exact below
    · exact sound.made other u known
  listed := sound.listed
  submitted other u known inside := by
    simp only [State.goto,State.set,Function.update_apply] at known ⊢
    split at known
    · cases known
      rw [if_pos rfl]
      exact submitted inside
    · have before := sound.submitted other u known inside
      split
      · rename_i same
        exact grows (same ▸ before)
      · exact before
  alone first second u v one two inside inside' same := by
    simp only [State.goto,State.set,Function.update_apply] at one two
    split at one <;> split at two
    · simp_all
    · rename_i other
      cases one
      exact absurd inside' (by rw [alone inside second v other two same.symm]; decide)
    · rename_i other _
      cases two
      exact absurd inside (by rw [alone inside' first u other one same]; decide)
    · exact sound.alone first second u v one two inside inside' same
  quiet other unsubmitted := by
    simp only [State.goto,State.set,Function.update_apply] at unsubmitted ⊢
    split at unsubmitted
    · rename_i same
      rw [if_pos same]
      exact quiet unsubmitted
    · rename_i different
      rw [if_neg different]
      exact sound.quiet other unsubmitted
  stands other u known := by
    simp only [State.goto,State.set,Function.update_apply] at known ⊢
    split at known
    · cases known
      rw [if_pos rfl]
      exact stands
    · rename_i different
      have before := sound.stands other u known
      split
      · rename_i same
        exact others other u different known same (same ▸ before)
      · exact before

private theorem goto_set (s : State) (handler : Nat) : s.set handler (s.objects handler) = s := by
  simp only [State.set,Function.update_eq_self]

theorem outside (sound : Sound callbacks s) {handler : Nat} (below : handler < s.next) {place : Place}
    (unstarted : place.started = false) : Sound callbacks (s.goto task handler place) := by
  rw [← goto_set s handler]
  apply sound.go place (s.objects handler) below id
  · intro inside
    rw [unstarted] at inside
    cases inside
  · intro inside
    rw [unstarted] at inside
    cases inside
  · exact sound.quiet handler
  · exact .of_outside unstarted
  · exact fun _ _ _ _ _ stands => stands

theorem inside (sound : Sound callbacks s) (known : s.tasks task = some t) (started : t.place.started = true)
    (place : Place) (object : ContainerLifecycleHandler) (kept : object.submitted = (s.objects t.handler).submitted)
    (stands : Stands callbacks object place) :
    Sound callbacks ((s.set t.handler object).goto task t.handler place) := by
  have submitted := sound.submitted task t known started
  have apart (other : Nat) (u : Task) (different : other ≠ task) (there : s.tasks other = some u)
      (same : u.handler = t.handler) : u.place.started = false := by
    by_contra inside
    exact different (sound.alone other task u t there known (by simpa using inside) started same)
  apply sound.go place object (sound.made task t known)
  · intro _
    rw [kept,submitted]
  · intro _
    rw [kept,submitted]
  · exact fun _ => apart
  · intro unsubmitted
    rw [kept,submitted] at unsubmitted
    cases unsubmitted
  · exact stands
  · exact fun other u different there same _ => .of_outside (apart other u different there same)

theorem stays (sound : Sound callbacks s) (known : s.tasks task = some t) (started : t.place.started = true)
    (place : Place) (stands : Stands callbacks (s.objects t.handler) place) :
    Sound callbacks (s.goto task t.handler place) := by
  have moved := sound.inside known started place (s.objects t.handler) rfl stands
  rwa [goto_set] at moved

theorem submits (sound : Sound callbacks s) (known : s.tasks task = some t) (unsubmitted : (s.objects t.handler).submitted = false) :
    Sound callbacks ((s.set t.handler { s.objects t.handler with submitted := true }).goto task t.handler .start) := by
  have calm := sound.quiet t.handler unsubmitted
  have none_started (other : Nat) (u : Task) (there : s.tasks other = some u) (same : u.handler = t.handler) :
      u.place.started = false := by
    by_contra inside
    have submitted := sound.submitted other u there (by simpa using inside)
    rw [same,unsubmitted] at submitted
    cases submitted
  apply sound.go .start { s.objects t.handler with submitted := true } (sound.made task t known)
  · exact fun _ => rfl
  · exact fun _ => rfl
  · exact fun _ other u _ there same => none_started other u there same
  · intro other
    cases other
  · exact calm
  · exact fun other u _ there same _ => .of_outside (none_started other u there same)

private theorem poisons (sound : Sound callbacks s) (known : s.tasks task = some t)
    (open_ : (s.objects t.handler).status.completed = false) :
    Sound callbacks ((s.set t.handler { s.objects t.handler with status := .Poison }).goto task t.handler .done) := by
  apply sound.go .done { s.objects t.handler with status := .Poison } (sound.made task t known) id
  · intro inside
    cases inside
  · intro inside
    cases inside
  · exact fun unsubmitted => ⟨rfl,(sound.quiet t.handler unsubmitted).2⟩
  · trivial
  · intro other u _ _ _ stands
    cases place : u.place with
    | start | wait =>
      rw [place] at stands
      exact ⟨rfl,stands.2⟩
    | guard status | differ status | write status =>
      rw [place] at stands
      exact ⟨⟨rfl,stands.1.2⟩,stands.2⟩
    | report status callback =>
      rw [place] at stands
      obtain ⟨started,calm⟩ | ⟨ended,same,-⟩ := stands
      · exact .inl ⟨started,rfl,calm.2⟩
      · rw [same,ended] at open_
        cases open_
    | ended raised =>
      rw [place] at stands
      rw [stands.2.1] at open_
      cases open_
    | _ => trivial

theorem advance (sound : Sound callbacks s) (known : s.tasks task = some t)
    (submit : t.place = .submit → (s.objects t.handler).submitted = false)
    (poison : t.place = .poison → (s.objects t.handler).status.completed = false)
    (stepped : s.advance callbacks task t = some s') : Sound callbacks s' := by
  have below := sound.made task t known
  have stands := sound.stands task t known
  unfold State.advance at stepped
  split at stepped
  case h_1 place =>
    cases stepped
    split <;> exact sound.outside below rfl
  case h_2 place =>
    cases stepped
    split <;> exact sound.outside below rfl
  case h_3 place =>
    cases stepped
    exact sound.submits known (submit place)
  case h_4 place =>
    cases stepped
    rw [place] at stands
    exact sound.stays known (by rw [place]; rfl) _ ⟨stands,.inl rfl⟩
  case h_5 status place =>
    cases stepped
    rw [place] at stands
    rw [stands.1.1,if_neg Bool.false_ne_true]
    exact sound.stays known (by rw [place]; rfl) _ stands
  case h_6 status place =>
    cases stepped
    rw [place] at stands
    apply sound.stays known (by rw [place]; rfl)
    split
    · rename_i same
      apply Stands.afterwards
      · exact fun _ => stands.1
      · intro other
        obtain started | ended := stands.2
        · exact absurd started other
        · rw [← same,stands.1.1] at ended
          cases ended
    · exact stands
  case h_7 status place =>
    cases stepped
    rw [place] at stands
    refine sound.inside known (by rw [place]; rfl) _ _ ?_ ?_
    · rfl
    obtain rfl | ended := stands.2
    · exact .inl ⟨rfl,rfl,stands.1.2⟩
    · exact .inr ⟨ended,rfl,fun c before => absurd before (Nat.not_lt_zero c),fun c _ => stands.1.2 c⟩
  case h_8 status callback place =>
    rw [place] at stands
    split at stepped
    · cases stepped
      refine sound.inside known (by rw [place]; rfl) _ _ ?_ ?_
      · rfl
      obtain ⟨rfl,calm⟩ | ⟨ended,same,told,untold⟩ := stands
      · refine .inl ⟨rfl,calm.1,fun c => ?_⟩
        simp only [Function.update_apply]
        split
        · rename_i this
          rw [List.filter_append,calm.2]
          rfl
        · exact calm.2 c
      · refine .inr ⟨ended,same,fun c before => ?_,fun c after => ?_⟩
        · simp only [Function.update_apply]
          split
          · rename_i this
            rw [List.filter_append,untold callback (Nat.le_refl _),List.filter_singleton,ended]
            rfl
          · rename_i other
            exact told c (by omega)
        · have other : c ≠ callback := by omega
          simp only [Function.update_of_ne other]
          exact untold c (by omega)
    · rename_i all
      cases stepped
      apply sound.stays known (by rw [place]; rfl)
      obtain ⟨rfl,calm⟩ | ⟨ended,same,told,-⟩ := stands
      · exact Stands.afterwards (fun _ => calm) (fun other => absurd rfl other)
      · apply Stands.afterwards
        · rintro rfl
          cases ended
        · intro _
          rw [same]
          exact ⟨ended,fun c before => told c (by omega)⟩
  case h_9 place =>
    cases stepped
    exact sound.outside below rfl
  case h_10 place =>
    cases stepped
    split <;> exact sound.outside below rfl
  case h_11 place =>
    cases stepped
    exact sound.poisons known (poison place)
  all_goals cases stepped

theorem exit (sound : Sound callbacks s) (known : s.tasks task = some t) {exitCode : Int}
    (stepped : s.exit task exitCode t = some s') : Sound callbacks s' := by
  have stands := sound.stands task t known
  obtain ⟨place,rfl⟩ := exit_cases stepped
  rw [place] at stands
  apply sound.stays known (by rw [place]; rfl)
  split
  · exact ⟨stands,.inr rfl⟩
  · exact ⟨stands,.inr rfl⟩

theorem call (sound : Sound callbacks s) {containerId : Int} {place : Place} (unstarted : place.started = false)
    (stepped : s.call task containerId place = some s') : Sound callbacks s' := by
  obtain ⟨handler,listed,rfl⟩ := call_cases stepped
  exact sound.outside (sound.listed containerId handler listed) unstarted

theorem sweep_poisoned (sound : Sound callbacks s) {containerId : Int}
    (stepped : s.sweep_poisoned task containerId = some s') : Sound callbacks s' := by
  obtain ⟨handler,listed,rfl⟩ := sweep_poisoned_cases stepped
  exact sound.outside (sound.listed containerId handler listed) rfl

theorem sweep_completed (sound : Sound callbacks s) {containerId : Int}
    (stepped : s.sweep_completed containerId = some s') : Sound callbacks s' := by
  obtain rfl := sweep_completed_cases stepped
  refine ⟨sound.made,fun other handler listed => ?_,sound.submitted,sound.alone,sound.quiet,sound.stands⟩
  simp only [Function.update_apply] at listed
  split at listed
  · cases listed
  · exact sound.listed other handler listed

theorem addContainer (sound : Sound callbacks s) (containerId : Int) : Sound callbacks (s.addContainer containerId) where
  made other u known := Nat.lt_succ_of_lt (sound.made other u known)
  listed other handler known := by
    simp only [State.addContainer,Function.update_apply] at known ⊢
    split at known
    · rcases Option.or_eq_some_iff.mp known with old | ⟨-,new⟩
      · exact Nat.lt_succ_of_lt (sound.listed _ handler old)
      · cases new
        exact Nat.lt_succ_self _
    · exact Nat.lt_succ_of_lt (sound.listed other handler known)
  submitted other u known inside := by
    simp only [State.addContainer,Function.update_of_ne (Nat.ne_of_lt (sound.made other u known))]
    exact sound.submitted other u known inside
  alone := sound.alone
  quiet handler unsubmitted := by
    simp only [State.addContainer,Function.update_apply] at unsubmitted ⊢
    split at unsubmitted
    · rename_i same
      rw [if_pos same]
      exact ⟨rfl,fun _ => rfl⟩
    · rename_i different
      rw [if_neg different]
      exact sound.quiet handler unsubmitted
  stands other u known := by
    simp only [State.addContainer,Function.update_of_ne (Nat.ne_of_lt (sound.made other u known))]
    exact sound.stands other u known

end Sound

section
variable {callbacks : Nat} {s s' : State} {act : Act}

private theorem careful_advance {task : Nat} {t : Task} (allowed : careful s (.advance task) = true)
    (known : s.tasks task = some t) :
    (t.place = .submit → (s.objects t.handler).submitted = false) ∧
      (t.place = .poison → (s.objects t.handler).status.completed = false) := by
  obtain ⟨handler,place⟩ := t
  constructor
  · rintro rfl
    simpa [careful,known] using allowed
  · rintro rfl
    simpa [careful,known] using allowed

theorem Sound.step (sound : Sound callbacks s) (stepped : ((system callbacks).restrict careful).step s act = some s') :
    Sound callbacks s' := by
  obtain ⟨allowed,stepped⟩ := (System.restrict_step_iff _ _ _ _ _).mp stepped
  cases act with
  | addContainer containerId =>
    cases stepped
    exact sound.addContainer containerId
  | call task containerId operation =>
    apply sound.call _ stepped
    cases operation <;> rfl
  | advance task =>
    obtain ⟨t,known,moved⟩ := Option.bind_eq_some_iff.mp stepped
    obtain ⟨submit,poison⟩ := careful_advance allowed known
    exact sound.advance known submit poison moved
  | start_raises task => cases allowed
  | exit task exitCode =>
    obtain ⟨t,known,moved⟩ := Option.bind_eq_some_iff.mp stepped
    exact sound.exit known moved
  | sweep_poisoned task containerId => exact sound.sweep_poisoned stepped
  | sweep_completed containerId => exact sound.sweep_completed stepped

private theorem State.set_status (s : State) (handler other : Nat) {object : ContainerLifecycleHandler}
    (same : object.status = (s.objects handler).status) :
    ((s.set handler object).objects other).status = (s.objects other).status := by
  simp only [State.set,Function.update_apply]
  split
  · rename_i this
    rw [same,this]
  · rfl

private theorem advance_status {task : Nat} {t : Task} (stepped : s.advance callbacks task t = some s') (handler : Nat) :
    s'.next = s.next ∧ ((s'.objects handler).status = (s.objects handler).status ∨
      t.handler = handler ∧ ((∃ status, t.place = .write status) ∨ t.place = .poison)) := by
  have written (object : ContainerLifecycleHandler) (place : t.place = .poison ∨ ∃ status, t.place = .write status) :
      ((s.set t.handler object).objects handler).status = (s.objects handler).status ∨
        t.handler = handler ∧ ((∃ status, t.place = .write status) ∨ t.place = .poison) := by
    by_cases same : t.handler = handler
    · exact .inr ⟨same,place.symm⟩
    · simp only [State.set,Function.update_of_ne (Ne.symm same)]
      exact .inl trivial
  unfold State.advance at stepped
  split at stepped
  case h_3 =>
    cases stepped
    exact ⟨rfl,.inl (s.set_status t.handler handler rfl)⟩
  case h_7 status place =>
    cases stepped
    exact ⟨rfl,written _ (.inr ⟨status,place⟩)⟩
  case h_8 =>
    split at stepped <;> cases stepped
    · exact ⟨rfl,.inl (s.set_status t.handler handler rfl)⟩
    · exact ⟨rfl,.inl rfl⟩
  case h_11 place =>
    cases stepped
    exact ⟨rfl,written _ (.inl place)⟩
  all_goals
    cases stepped
    try exact ⟨rfl,.inl rfl⟩

private theorem Sound.status_kept (sound : Sound callbacks s)
    (stepped : ((system callbacks).restrict careful).step s act = some s') {handler : Nat} (made : handler < s.next)
    (completed : (s.objects handler).status.completed = true) :
    handler < s'.next ∧ (s'.objects handler).status = (s.objects handler).status := by
  obtain ⟨allowed,stepped⟩ := (System.restrict_step_iff _ _ _ _ _).mp stepped
  cases act with
  | addContainer containerId =>
    cases stepped
    refine ⟨Nat.lt_succ_of_lt made,?_⟩
    simp only [State.addContainer,Function.update_of_ne (Nat.ne_of_lt made)]
  | call task containerId operation =>
    obtain ⟨_,-,rfl⟩ := call_cases stepped
    exact ⟨made,rfl⟩
  | advance task =>
    obtain ⟨t,known,moved⟩ := Option.bind_eq_some_iff.mp stepped
    obtain ⟨next,kept | ⟨rfl,⟨status,place⟩ | place⟩⟩ := advance_status moved handler
    · exact ⟨next ▸ made,kept⟩
    · have stands := sound.stands task t known
      rw [place] at stands
      rw [stands.1.1] at completed
      cases completed
    · rw [(careful_advance allowed known).2 place] at completed
      cases completed
  | start_raises task => cases allowed
  | exit task exitCode =>
    obtain ⟨t,known,moved⟩ := Option.bind_eq_some_iff.mp stepped
    obtain ⟨-,rfl⟩ := exit_cases moved
    exact ⟨made,rfl⟩
  | sweep_poisoned task containerId =>
    obtain ⟨_,-,rfl⟩ := sweep_poisoned_cases stepped
    exact ⟨made,rfl⟩
  | sweep_completed containerId =>
    obtain rfl := sweep_completed_cases stepped
    exact ⟨made,rfl⟩

theorem Sound.final (sound : Sound callbacks s) : Final callbacks ((system callbacks).restrict careful) s where
  reported task handler raised known := (sound.stands task _ known).2
  kept labels t run task handler raised known := by
    have made := sound.made task _ known
    have completed := (sound.stands task _ known).2.1
    have after := run.invariant (P := fun t => Sound callbacks t ∧ handler < t.next ∧
      (t.objects handler).status = (s.objects handler).status) (by
        rintro a act b ⟨sound,made,same⟩ stepped
        obtain ⟨made',kept⟩ := sound.status_kept stepped made (same ▸ completed)
        exact ⟨sound.step stepped,made',kept.trans same⟩) ⟨sound,made,rfl⟩
    refine ⟨after.2.2,fun containerId listed => ?_⟩
    have done : (t.objects handler).status.completed = true := after.2.2 ▸ completed
    refine ⟨_,by rw [State.sweep_completed,listed]; exact if_pos done,?_⟩
    exact Function.update_self _ _ _

end

/-- The end of every container is reported once and is final, as long as its process
starts, in one start task, and no completed handler is poisoned. -/
theorem ends_final (callbacks : Nat) {s : State} (reached : ((system callbacks).restrict careful).Reachable s) :
    Final callbacks ((system callbacks).restrict careful) s := by
  apply Sound.final
  apply System.Reachable.invariant _ _ reached
  · rintro s rfl
    exact Sound.init
  · exact fun _ _ _ sound stepped => sound.step stepped

def succeeds : List Act :=
  [.addContainer 1,.call 0 1 .startContainer,.advance 0,.advance 0,.advance 0,.advance 0,.advance 0,.advance 0,
    .advance 0,.advance 0,.advance 0,.exit 0 0,.advance 0,.advance 0,.advance 0,.advance 0,.advance 0]

theorem ends_final_success : ∃ s, Final 1 ((system 1).restrict careful) s ∧ s.tasks 0 = some ⟨0,.ended false⟩ := by
  have ran : (((system 1).restrict careful).exec State.init succeeds).any (fun s =>
      decide (s.tasks 0 = some ⟨0,.ended false⟩)) = true := by decide +kernel
  obtain ⟨s,run,found⟩ := (Option.any_eq_true _ _).mp ran
  exact ⟨s,ends_final 1 ⟨_,_,rfl,run⟩,of_decide_eq_true found⟩

/-- A kill request for a container that has succeeded, before the sweep. -/
theorem poisoned_not_final : ∃ s, (system 1).Reachable s ∧ ¬ Final 1 (system 1) s := by
  have ran : ((system 1).exec State.init (succeeds ++ [.call 1 1 .killContainer,.advance 1,.advance 1])).any (fun s =>
      decide (s.tasks 0 = some ⟨0,.ended false⟩) && decide ((s.objects 0).status = .Poison)) = true := by
    decide +kernel
  obtain ⟨s,run,found⟩ := (Option.any_eq_true _ _).mp ran
  simp only [Bool.and_eq_true,decide_eq_true_eq] at found
  refine ⟨s,⟨_,_,rfl,run⟩,fun final => ?_⟩
  have completed := (final.reported 0 0 false found.1).1
  rw [found.2] at completed
  cases completed

end Eggroll.Containers
