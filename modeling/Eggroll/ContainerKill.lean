import Eggroll.Containers

/-! A kill request for a container: `killContainer` calls `container.kill()` or leaves
`Poison` in the status, which the start task may write over. -/
namespace Eggroll.Containers.Kill
open Library

/-- History of a handler: its processes are numbered as `container.start()` makes them, and
`container.kill()` is for the last of them. -/
structure Record where
  containerId : Int
  started : Nat
  ended : Nat
  killed : Nat → Bool
  -- A request that came in time has looked at the status.
  taken : Bool
  -- A request in time has found no handler.
  unheard : Bool
  -- A sweep has come by since the last step of a call or a task.
  swept : Bool

def Record.new (containerId : Int) (unheard : Bool) : Record := ⟨containerId,0,0,fun _ => false,false,unheard,false⟩

def Record.unended (record : Record) : Bool := decide (record.started = 0 ∨ record.ended < record.started)

/-- `inTime` is for the kill tasks that were asked for before the process ended, `sweeping`
for those of the sweep. -/
structure Traced where
  state : State
  records : Nat → Record
  inTime : Nat → Bool
  sweeping : Nat → Bool
  unlisted : Int → Bool

/-- The steps of the containers; a kill request that finds no handler; a sweep that comes by a handler. -/
inductive Event
  | act (act : Act)
  | kill_unlisted (containerId : Int)
  | sweep_passes (handler : Nat)
deriving Repr, DecidableEq

namespace Traced

def init : Traced := ⟨State.init,fun _ => .new 0 false,fun _ => false,fun _ => false,fun _ => false⟩

def note (s : Traced) (handler : Nat) (record : Record) : Traced :=
  { s with records := Function.update s.records handler record }

/-- A task of `handler` that was asked for. -/
def asked (s : Traced) (task : Nat) (inTime sweeping : Bool) : Traced :=
  { s with
    inTime := Function.update s.inTime task inTime
    sweeping := Function.update s.sweeping task sweeping }

def advanced (s : Traced) (task : Nat) (t : Task) : Record :=
  let record := { s.records t.handler with swept := (s.records t.handler).swept && s.sweeping task }
  match t.place with
  | .start => { record with started := record.started + 1 }
  | .check_kill =>
    { record with
      killed :=
        if (s.state.objects t.handler).status = .Started then
          Function.update record.killed (record.started - 1) true
        else record.killed
      taken := record.taken || s.inTime task }
  | _ => record

def noted (s : Traced) : Act → Traced
  | .addContainer containerId => s.note s.state.next (.new containerId (s.unlisted containerId))
  | .call task containerId operation =>
    match s.state.handlers containerId with
    | some handler =>
      (s.note handler { s.records handler with swept := false }).asked task
        (decide (operation = .killContainer) && (s.records handler).unended) false
    | none => s
  | .advance task =>
    match s.state.tasks task with
    | some t => s.note t.handler (s.advanced task t)
    | none => s
  | .start_raises task =>
    match s.state.tasks task with
    | some t => s.note t.handler { s.records t.handler with swept := false }
    | none => s
  | .exit task _ =>
    match s.state.tasks task with
    | some t => s.note t.handler { s.records t.handler with
        ended := (s.records t.handler).ended + 1
        swept := false }
    | none => s
  | .sweep_poisoned task containerId =>
    match s.state.handlers containerId with
    | some handler => (s.note handler { s.records handler with swept := true }).asked task false true
    | none => s
  | .sweep_completed _ => s

def kill_unlisted (s : Traced) (containerId : Int) : Traced :=
  { s with
    unlisted := Function.update s.unlisted containerId true
    records := fun handler => { s.records handler with
      unheard := (s.records handler).unheard ||
        decide (handler < s.state.next ∧ (s.records handler).containerId = containerId) &&
          (s.records handler).unended } }

def poisoned (s : Traced) (handler : Nat) : Bool :=
  decide (s.state.handlers (s.records handler).containerId = some handler ∧ (s.state.objects handler).status = .Poison)

/-- A kill request for the container came before its process had ended. -/
def Requested (s : Traced) (handler : Nat) : Prop :=
  (s.records handler).unheard = true ∨
    ∃ task t, s.state.tasks task = some t ∧ t.handler = handler ∧ s.inTime task = true

end Traced

/-- Where a call or a task has run; a start task waits for the end of its process. -/
def rests : Place → Bool
  | .refused | .wait | .ended _ | .done => true
  | _ => false

def traced (callbacks : Nat) : System Traced Event where
  start s := s = Traced.init
  step s
    | .act act => ((system callbacks).step s.state act).map fun state => { s.noted act with state := state }
    | .kill_unlisted containerId => if (s.state.handlers containerId).isNone then some (s.kill_unlisted containerId) else none
    | .sweep_passes handler =>
      if s.poisoned handler then none else some (s.note handler { s.records handler with swept := true })

/-- Of a container that somebody wanted to kill in time, every process that was started has
been killed, once its calls and tasks have run and a sweep has come by. -/
def Kills (s : Traced) : Prop :=
  ∀ handler, s.Requested handler →
    (∀ task t, s.state.tasks task = some t → t.handler = handler → rests t.place = true) →
    (s.records handler).swept = true →
    ∀ process < (s.records handler).started, (s.records handler).killed process = true

/-- `container.start()` is run once, and neither after a request in time has looked at the status
nor after one has found no handler; a request in time that looks at the status of a container
that was started finds it `Started`; and none finds no handler while a process runs. -/
def timely (s : Traced) : Event → Bool
  | .act (.advance task) =>
    match s.state.tasks task with
    | some ⟨handler,.start⟩ =>
      decide ((s.records handler).started = 0) && !(s.records handler).taken && !(s.records handler).unheard
    | some ⟨handler,.check_kill⟩ =>
      !s.inTime task || decide ((s.records handler).started = 0 ∨ (s.state.objects handler).status = .Started)
    | _ => true
  | .kill_unlisted containerId =>
    (List.range s.state.next).all fun handler =>
      !(decide ((s.records handler).containerId = containerId) && (s.records handler).unended) ||
        decide ((s.records handler).started = 0)
  | _ => true

def Record.settled (record : Record) : Prop :=
  record.started ≤ 1 ∧
    (record.taken = true ∨ record.unheard = true → record.started = 0 ∨ record.killed 0 = true)

def Stands (record : Record) (place : Place) : Prop :=
  place = .check_kill ∨ (place = .poison ∨ place = .done) ∧ record.taken = true

structure Settled (s : Traced) : Prop where
  listed : ∀ containerId handler, s.state.handlers containerId = some handler → handler < s.state.next
  made : ∀ task t, s.state.tasks task = some t → t.handler < s.state.next
  records : ∀ handler, (s.records handler).settled
  stands : ∀ task t, s.state.tasks task = some t → s.inTime task = true → Stands (s.records t.handler) t.place

theorem Stands.grows {record after : Record} {place : Place} (stands : Stands record place)
    (grows : record.taken = true → after.taken = true) : Stands after place := by
  obtain checks | ⟨beyond,taken⟩ := stands
  · exact .inl checks
  · exact .inr ⟨beyond,grows taken⟩

namespace Settled
variable {s s' : Traced} {task handler : Nat}

theorem init : Settled Traced.init where
  listed _ _ known := nomatch known
  made _ _ known := nomatch known
  records _ := ⟨Nat.zero_le 1,fun _ => .inl rfl⟩
  stands _ _ known := nomatch known

theorem moves (settled : Settled s) (below : handler < s.state.next) (place : Place) (record : Record)
    (next : s'.state.next = s.state.next) (handlers : s'.state.handlers = s.state.handlers)
    (tasks : s'.state.tasks = Function.update s.state.tasks task (some ⟨handler,place⟩))
    (records : s'.records = Function.update s.records handler record) (recorded : record.settled)
    (inTime : ∀ other, other ≠ task → s'.inTime other = s.inTime other)
    (grows : (s.records handler).taken = true → record.taken = true)
    (stands : s'.inTime task = true → Stands record place) : Settled s' where
  listed containerId other known := by
    rw [handlers] at known
    rw [next]
    exact settled.listed containerId other known
  made other t known := by
    rw [tasks,Function.update_apply] at known
    rw [next]
    split at known
    · cases known
      exact below
    · exact settled.made other t known
  records other := by
    rw [records,Function.update_apply]
    split
    · exact recorded
    · exact settled.records other
  stands other t known early := by
    rw [tasks,Function.update_apply] at known
    rw [records,Function.update_apply]
    split at known
    · rename_i same
      cases known
      rw [if_pos rfl]
      exact stands (same ▸ early)
    · rename_i different
      have before := settled.stands other t known (inTime other different ▸ early)
      split
      · rename_i same
        exact (same ▸ before).grows grows
      · exact before

theorem recorded (settled : Settled s) (state : s'.state = s.state) (inTime : s'.inTime = s.inTime)
    (records : ∀ handler, (s'.records handler).settled)
    (grows : ∀ handler, (s.records handler).taken = true → (s'.records handler).taken = true) : Settled s' where
  listed := by
    rw [state]
    exact settled.listed
  made := by
    rw [state]
    exact settled.made
  records := records
  stands other t known early := by
    rw [state] at known
    rw [inTime] at early
    exact (settled.stands other t known early).grows (grows t.handler)

end Settled

section
variable {callbacks : Nat}

private theorem advance_moves {s s' : State} {task : Nat} {t : Task} (moved : s.advance callbacks task t = some s') :
    s'.next = s.next ∧ s'.handlers = s.handlers ∧ ∃ place,
      s'.tasks = Function.update s.tasks task (some ⟨t.handler,place⟩) ∧
        (t.place = .check_kill ∨ t.place = .poison → place = .poison ∨ place = .done) ∧ t.place ≠ .done := by
  obtain ⟨handler,place⟩ := t
  cases place with
  | check_kill =>
    cases moved
    refine ⟨rfl,rfl,_,rfl,fun _ => ?_,Place.noConfusion⟩
    split
    · exact .inr rfl
    · exact .inl rfl
  | poison =>
    cases moved
    exact ⟨rfl,rfl,_,rfl,fun _ => .inr rfl,Place.noConfusion⟩
  | report status callback =>
    simp only [State.advance] at moved
    split at moved <;> cases moved <;> exact ⟨rfl,rfl,_,rfl,by simp,Place.noConfusion⟩
  | refused | wait | ended _ | done => cases moved
  | _ =>
    cases moved
    exact ⟨rfl,rfl,_,rfl,by simp,Place.noConfusion⟩

end

namespace Settled
variable {callbacks : Nat} {s : Traced} {state : State} {task : Nat}

theorem addContainer (settled : Settled s) (containerId : Int) :
    Settled { s.noted (.addContainer containerId) with state := s.state.addContainer containerId } where
  listed other handler known := by
    simp only [State.addContainer,Function.update_apply] at known ⊢
    split at known
    · obtain old | ⟨-,new⟩ := Option.or_eq_some_iff.mp known
      · exact Nat.lt_succ_of_lt (settled.listed _ handler old)
      · cases new
        exact Nat.lt_succ_self _
    · exact Nat.lt_succ_of_lt (settled.listed other handler known)
  made task t known := Nat.lt_succ_of_lt (settled.made task t known)
  records handler := by
    simp only [Traced.noted,Traced.note,Function.update_apply]
    split
    · exact ⟨Nat.zero_le 1,fun _ => .inl rfl⟩
    · exact settled.records handler
  stands task t known early := by
    simp only [Traced.noted,Traced.note,Function.update_of_ne (Nat.ne_of_lt (settled.made task t known))]
    exact settled.stands task t known early

theorem call (settled : Settled s) {containerId : Int} {operation : Operation}
    (called : s.state.call task containerId operation.entry = some state) :
    Settled { s.noted (.call task containerId operation) with state := state } := by
  obtain ⟨handler,listed,rfl⟩ := call_cases called
  simp only [Traced.noted,listed]
  apply settled.moves (settled.listed containerId handler listed) operation.entry { s.records handler with swept := false }
  · rfl
  · rfl
  · rfl
  · rfl
  · exact settled.records handler
  · intro other different
    exact Function.update_of_ne different _ _
  · exact id
  · intro early
    simp only [Traced.asked,Function.update_self,Bool.and_eq_true,decide_eq_true_eq] at early
    rw [early.1]
    exact .inl rfl

theorem sweep_poisoned (settled : Settled s) {containerId : Int}
    (swept : s.state.sweep_poisoned task containerId = some state) :
    Settled { s.noted (.sweep_poisoned task containerId) with state := state } := by
  obtain ⟨handler,listed,rfl⟩ := sweep_poisoned_cases swept
  simp only [Traced.noted,listed]
  apply settled.moves (settled.listed containerId handler listed) .check_kill { s.records handler with swept := true }
  · rfl
  · rfl
  · rfl
  · rfl
  · exact settled.records handler
  · intro other different
    exact Function.update_of_ne different _ _
  · exact id
  · intro early
    simp only [Traced.asked,Function.update_self] at early
    cases early

theorem sweep_completed (settled : Settled s) {containerId : Int}
    (swept : s.state.sweep_completed containerId = some state) : Settled { s with state := state } := by
  obtain rfl := sweep_completed_cases swept
  refine ⟨fun other handler known => ?_,settled.made,settled.records,settled.stands⟩
  simp only [Function.update_apply] at known
  split at known
  · cases known
  · exact settled.listed other handler known

theorem leaves (settled : Settled s) {t : Task} (known : s.state.tasks task = some t)
    (start : t.place = .start ∨ t.place = .wait) (place : Place) (record : Record)
    (started : record.started = (s.records t.handler).started) (killed : record.killed = (s.records t.handler).killed)
    (taken : record.taken = (s.records t.handler).taken) (unheard : record.unheard = (s.records t.handler).unheard) :
    Settled { s.note t.handler record with state := s.state.goto task t.handler place } := by
  apply settled.moves (settled.made task t known) place record
  · rfl
  · rfl
  · rfl
  · rfl
  · unfold Record.settled
    rw [started,killed,taken,unheard]
    exact settled.records t.handler
  · exact fun _ _ => rfl
  · rw [taken]
    exact id
  · intro early
    have stands := settled.stands task t known early
    obtain inside | inside := start <;> rw [inside] at stands <;>
      obtain wrong | ⟨wrong | wrong,-⟩ := stands <;> cases wrong

private theorem advanced_taken {t : Task} (taken : (s.records t.handler).taken = true) : (s.advanced task t).taken = true := by
  unfold Traced.advanced
  split
  · exact taken
  · simp only [taken,Bool.true_or]
  · exact taken

theorem advanced (settled : Settled s) {t : Task} (known : s.state.tasks task = some t)
    (allowed : timely s (.act (.advance task)) = true) : (s.advanced task t).settled := by
  obtain ⟨handler,place⟩ := t
  obtain ⟨once,answered⟩ := settled.records handler
  cases place with
  | start =>
    simp only [timely,known,Bool.and_eq_true,decide_eq_true_eq,Bool.not_eq_true'] at allowed
    obtain ⟨⟨unstarted,untaken⟩,heard⟩ := allowed
    simp only [Traced.advanced,Record.settled,unstarted,untaken,heard]
    exact ⟨Nat.le_refl 1,fun requested => by simp at requested⟩
  | check_kill =>
    simp only [timely,known,Bool.or_eq_true,Bool.not_eq_true',decide_eq_true_eq] at allowed
    refine ⟨once,fun requested => ?_⟩
    simp only [Traced.advanced,Bool.or_eq_true] at requested ⊢
    by_cases unstarted : (s.records handler).started = 0
    · exact .inl unstarted
    -- There is one process, and `container.kill()` is for it.
    have last : (s.records handler).started - 1 = 0 := by omega
    right
    rw [last]
    split
    · exact Function.update_self _ _ _
    · rename_i other
      obtain late | unready | started := allowed
      · simp only [late,Bool.false_eq_true,or_false] at requested
        exact (answered requested).resolve_left unstarted
      · exact absurd unready unstarted
      · exact absurd started other
  | _ => exact ⟨once,answered⟩

theorem advance (settled : Settled s) {t : Task} (known : s.state.tasks task = some t)
    (allowed : timely s (.act (.advance task)) = true) (moved : s.state.advance callbacks task t = some state) :
    Settled { s.note t.handler (s.advanced task t) with state := state } := by
  obtain ⟨next,handlers,place,tasks,kill,rested⟩ := advance_moves moved
  apply settled.moves (settled.made task t known) place (s.advanced task t) next handlers tasks
  · rfl
  · exact settled.advanced known allowed
  · exact fun _ _ => rfl
  · exact advanced_taken
  · intro early
    obtain checks | ⟨beyond,taken⟩ := settled.stands task t known early
    · refine .inr ⟨kill (.inl checks),?_⟩
      have here : s.inTime task = true := early
      simp only [Traced.advanced,checks,here,Bool.or_true]
    · exact .inr ⟨kill (.inr (beyond.resolve_right rested)),advanced_taken taken⟩

private theorem kill_unlisted (settled : Settled s) {containerId : Int}
    (allowed : timely s (.kill_unlisted containerId) = true) : Settled (s.kill_unlisted containerId) := by
  apply settled.recorded
  · rfl
  · rfl
  · intro handler
    obtain ⟨once,answered⟩ := settled.records handler
    refine ⟨once,fun requested => ?_⟩
    simp only [Traced.kill_unlisted,Bool.or_eq_true,Bool.and_eq_true,decide_eq_true_eq] at requested
    obtain taken | unheard | ⟨⟨below,same⟩,unended⟩ := requested
    · exact answered (.inl taken)
    · exact answered (.inr unheard)
    · have unstarted := List.all_eq_true.mp allowed handler (List.mem_range.mpr below)
      simp only [same,unended,decide_true,Bool.and_self,Bool.not_true,Bool.false_or,decide_eq_true_eq] at unstarted
      exact .inl unstarted
  · exact fun _ => id

private theorem sweep_passes (settled : Settled s) (handler : Nat) :
    Settled (s.note handler { s.records handler with swept := true }) := by
  apply settled.recorded
  · rfl
  · rfl
  · intro other
    simp only [Traced.note,Function.update_apply]
    split
    · exact settled.records handler
    · exact settled.records other
  · intro other taken
    simp only [Traced.note,Function.update_apply]
    split
    · rename_i same
      exact same ▸ taken
    · exact taken

theorem step (settled : Settled s) {event : Event} {s' : Traced}
    (stepped : ((traced callbacks).restrict timely).step s event = some s') : Settled s' := by
  obtain ⟨allowed,stepped⟩ := (System.restrict_step_iff _ _ _ _ _).mp stepped
  cases event with
  | act act =>
    obtain ⟨state,moved,rfl⟩ := Option.map_eq_some_iff.mp stepped
    cases act with
    | addContainer containerId =>
      cases moved
      exact settled.addContainer containerId
    | call task containerId operation => exact settled.call moved
    | advance task =>
      obtain ⟨t,known,moved⟩ := Option.bind_eq_some_iff.mp moved
      simp only [Traced.noted,known]
      exact settled.advance known allowed moved
    | start_raises task =>
      obtain ⟨t,known,moved⟩ := Option.bind_eq_some_iff.mp moved
      simp only [Traced.noted,known]
      obtain ⟨start,rfl⟩ := start_raises_cases moved
      apply settled.leaves known (.inl start) <;> rfl
    | exit task exitCode =>
      obtain ⟨t,known,moved⟩ := Option.bind_eq_some_iff.mp moved
      simp only [Traced.noted,known]
      obtain ⟨waits,rfl⟩ := exit_cases moved
      apply settled.leaves known (.inr waits) <;> rfl
    | sweep_poisoned task containerId => exact settled.sweep_poisoned moved
    | sweep_completed containerId => exact settled.sweep_completed moved
  | kill_unlisted containerId =>
    simp only [traced] at stepped
    split at stepped
    · cases stepped
      exact settled.kill_unlisted allowed
    · cases stepped
  | sweep_passes handler =>
    simp only [traced] at stepped
    split at stepped
    · cases stepped
    · cases stepped
      exact settled.sweep_passes handler

theorem kills (settled : Settled s) : Kills s := by
  intro handler requested rested _ process before
  obtain ⟨once,answered⟩ := settled.records handler
  have first : process = 0 := by omega
  have taken : (s.records handler).taken = true ∨ (s.records handler).unheard = true := by
    obtain unheard | ⟨task,t,known,rfl,early⟩ := requested
    · exact .inr unheard
    · have still := rested task t known rfl
      obtain checks | ⟨-,taken⟩ := settled.stands task t known early
      · rw [checks] at still
        cases still
      · exact .inl taken
  rw [first]
  apply (answered taken).resolve_left
  omega

end Settled

/-- No request in time is lost as long as none comes in the middle of the start or before it. -/
theorem kills_timely (callbacks : Nat) {s : Traced} (reached : ((traced callbacks).restrict timely).Reachable s) :
    Kills s := by
  apply Settled.kills
  apply System.Reachable.invariant _ _ reached
  · rintro s rfl
    exact Settled.init
  · exact fun _ _ _ settled stepped => settled.step stepped

/-- Task 0 starts container 1 up to `container.start()`. -/
def starting : List Event :=
  [.act (.addContainer 1),.act (.call 0 1 .startContainer),.act (.advance 0),.act (.advance 0),.act (.advance 0)]

/-- From `container.start()` to the wait for the end. -/
def up : List Event := List.replicate 5 (.act (.advance 0))

def asking : List Event := [.act (.call 1 1 .killContainer),.act (.advance 1)]

def caught : List Event := starting ++ up ++ asking ++ [.sweep_passes 0]

/-- The request comes while the process is being started; a sweep comes by once it is up, and
another once it has ended by itself. -/
def overwritten : List Event :=
  starting ++ asking ++ [.act (.advance 1)] ++ up ++ [.sweep_passes 0,.act (.exit 0 0)] ++
    List.replicate 4 (.act (.advance 0)) ++ [.sweep_passes 0]

theorem kills_timely_caught : ∃ s, ((traced 0).restrict timely).Reachable s ∧ s.Requested 0 ∧ Kills s ∧
    (s.records 0).killed 0 = true := by
  have ran : (((traced 0).restrict timely).exec .init caught).any (fun s =>
      decide (s.state.tasks 1 = some ⟨0,.done⟩) && s.inTime 1 && (s.records 0).killed 0) = true := by decide +kernel
  obtain ⟨s,run,found⟩ := (Option.any_eq_true _ _).mp ran
  simp only [Bool.and_eq_true,decide_eq_true_eq] at found
  have reached : ((traced 0).restrict timely).Reachable s := ⟨_,_,rfl,run⟩
  exact ⟨s,reached,.inr ⟨1,_,found.1.1,rfl,found.1.2⟩,kills_timely 0 reached,found.2⟩

theorem kill_overwritten : ∃ s, (traced 0).Reachable s ∧ ¬ Kills s := by
  have ran : ((traced 0).exec .init overwritten).any (fun s => decide (s.state.tasks 0 = some ⟨0,.ended false⟩) &&
      decide (s.state.tasks 1 = some ⟨0,.done⟩) && s.inTime 1 && (s.records 0).swept &&
      decide ((s.records 0).started = 1) && !(s.records 0).killed 0) = true := by decide +kernel
  have others (task : Nat) : ((traced 0).exec .init overwritten).map (fun s => s.state.tasks (task + 2)) = some none := rfl
  obtain ⟨s,run,found⟩ := (Option.any_eq_true _ _).mp ran
  simp only [Bool.and_eq_true,decide_eq_true_eq,Bool.not_eq_true'] at found
  obtain ⟨⟨⟨⟨⟨ended,done⟩,inTime⟩,swept⟩,started⟩,spared⟩ := found
  refine ⟨s,⟨_,_,rfl,run⟩,fun kills => ?_⟩
  have killed := kills 0 (.inr ⟨1,_,done,rfl,inTime⟩) (fun task t known _ => ?_) swept 0 (by rw [started]; decide)
  · rw [spared] at killed
    cases killed
  · match task with
    | 0 =>
      cases ended.symm.trans known
      rfl
    | 1 =>
      cases done.symm.trans known
      rfl
    | task + 2 =>
      have absent := others task
      rw [run] at absent
      cases (Option.some.inj absent).symm.trans known

end Eggroll.Containers.Kill
