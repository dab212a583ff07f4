import Mathlib.Logic.Function.Basic
import Std.Data.String.ToInt
import Eggroll.Library.System
import Eggroll.StateMachine

/-! `DefaultProcessorManager.heartbeat`: the cache that suppresses a heartbeat whose status is
that of the last one. The entry is put before the status is changed and stays when the change
throws. -/
namespace Eggroll.Cluster.DefaultProcessorManager
open Library

/-- What has become of a heartbeat: `getById` has thrown, its status was the cached one, or
`changeStatus` was called and has returned or thrown. -/
inductive Outcome
  | refused
  | suppressed
  | applied
  | failed
deriving Repr, DecidableEq

structure Beat where
  id : Int
  status : String
  outcome : Outcome
deriving Repr, DecidableEq

/-- The manager, with the heartbeats it has handled, the last one first. -/
structure Manager where
  processorHeartBeat : String → Option ErProcessor
  tables : Tables
  beats : List Beat

namespace Manager

def record (s : Manager) (proc : ErProcessor) (outcome : Outcome) : Manager :=
  { s with beats := ⟨proc.id,proc.status,outcome⟩ :: s.beats }

def put (s : Manager) (proc : ErProcessor) : Manager :=
  { s with processorHeartBeat := Function.update s.processorHeartBeat (toString proc.id) (some proc) }

private theorem put_self (s : Manager) (proc : ErProcessor) :
    (s.put proc).processorHeartBeat (toString proc.id) = some proc := Function.update_self ..

private theorem put_other (s : Manager) {proc : ErProcessor} {key : String} (other : key ≠ toString proc.id) :
    (s.put proc).processorHeartBeat key = s.processorHeartBeat key := Function.update_of_ne other ..

end Manager

section
variable (useResourceDispatch : Bool) (env : ℕ → Env) (proc : ErProcessor) (s : Manager)

/-- `processorStateMachine.changeStatus`, after the one call of `getById`. -/
def changeStatus : Option Manager :=
  (((processorStateMachine useResourceDispatch).changeStatus { statusReason := some "HEART_BEAT" } proc ""
    proc.status false).run Tables.serve env s.tables 1).map fun ended =>
      match ended.2.2 with
      | .ok _ => { s with tables := ended.1 }.record proc .applied
      | .error _ => { s with tables := ended.1 }.record proc .failed

def heartbeat : Option Manager :=
  let previousHeartbeat := s.processorHeartBeat (toString proc.id)
  (Tables.serve s.tables (.getProcessor proc.id) (env 0)).bind fun read =>
    match read.2 with
    | .error _ => some (s.record proc .refused)
    | .ok _ =>
      match previousHeartbeat with
      | none => changeStatus useResourceDispatch env proc (s.put proc)
      | some previousHeartbeat =>
        if previousHeartbeat.status ≠ proc.status then changeStatus useResourceDispatch env proc (s.put proc)
        else some (s.record proc .suppressed)

end

/-- An entry is dropped a minute after it was put, or when the cache is full; between two
heartbeats other requests change the tables. -/
inductive Event
  | heartbeat (proc : ErProcessor) (env : ℕ → Env)
  | drop (key : String)
  | others (tables : Tables)

def step (useResourceDispatch : Bool) (s : Manager) : Event → Option Manager
  | .heartbeat proc env => heartbeat useResourceDispatch env proc s
  | .drop key => some { s with processorHeartBeat := Function.update s.processorHeartBeat key none }
  | .others tables => some { s with tables := tables }

def manager (useResourceDispatch : Bool) : System Manager Event where
  start s := s.processorHeartBeat = (fun _ => none) ∧ s.beats = []
  step := step useResourceDispatch

def Beat.attempted (beat : Beat) : Bool := beat.outcome = .applied || beat.outcome = .failed

def AppliedSince (id : Int) (status : String) (earlier : List Beat) : Prop :=
  ∃ between beat before, earlier = between ++ beat :: before ∧
    beat.id = id ∧ beat.status = status ∧ beat.outcome = .applied ∧
    ∀ other ∈ between, other.id = id → other.status = status

def FailedLast (id : Int) (earlier : List Beat) : Prop :=
  ∃ between beat before, earlier = between ++ beat :: before ∧ beat.id = id ∧ beat.outcome = .failed ∧
    ∀ other ∈ between, other.id = id → other.attempted = false

/-- Only a heartbeat whose status is applied has been suppressed. -/
def NeverLost (beats : List Beat) : Prop :=
  ∀ later beat earlier, beats = later ++ beat :: earlier → beat.outcome = .suppressed →
    AppliedSince beat.id beat.status earlier ∧ ¬ FailedLast beat.id earlier

def lastAttempt (id : Int) (beats : List Beat) : Option Beat :=
  beats.find? fun beat => beat.id = id && beat.attempted

def sinceAttempt (id : Int) (beats : List Beat) : List Beat :=
  beats.takeWhile fun beat => !(beat.id = id && beat.attempted)

def Repeats (s : Manager) (proc : ErProcessor) (env : ℕ → Env) : Bool :=
  !(env 0).fails && (s.processorHeartBeat (toString proc.id)).any fun previousHeartbeat =>
    previousHeartbeat.status = proc.status

/-- No heartbeat repeats the cached status after a change that threw, or after another status
of the processor that could not be read. -/
def Safe (s : Manager) : Event → Bool
  | .heartbeat proc env =>
    !Repeats s proc env ||
      (lastAttempt proc.id s.beats).all (fun beat => beat.outcome ≠ .failed) &&
        (sinceAttempt proc.id s.beats).all fun beat => beat.id ≠ proc.id || beat.status = proc.status
  | _ => true

section
variable {useResourceDispatch : Bool} {env : ℕ → Env} {proc : ErProcessor} {s t : Manager}

private theorem changeStatus_spec (changed : changeStatus useResourceDispatch env proc s = some t) :
    t.processorHeartBeat = s.processorHeartBeat ∧
      ∃ outcome, t.beats = ⟨proc.id,proc.status,outcome⟩ :: s.beats ∧ (outcome = .applied ∨ outcome = .failed) := by
  obtain ⟨ended,_,rfl⟩ := Option.map_eq_some_iff.mp changed
  obtain ⟨tables,calls,result⟩ := ended
  cases result with
  | ok value => exact ⟨rfl,.applied,rfl,.inl rfl⟩
  | error failure => exact ⟨rfl,.failed,rfl,.inr rfl⟩

private theorem heartbeat_spec (beaten : heartbeat useResourceDispatch env proc s = some t) :
    (t = s.record proc .refused ∧ Repeats s proc env = false) ∨
      (t = s.record proc .suppressed ∧ Repeats s proc env = true) ∨
      (t.processorHeartBeat = (s.put proc).processorHeartBeat ∧ Repeats s proc env = false ∧
        ∃ outcome, t.beats = ⟨proc.id,proc.status,outcome⟩ :: s.beats ∧
          (outcome = .applied ∨ outcome = .failed)) := by
  cases fails : (env 0).fails with
  | true =>
    simp only [heartbeat,Tables.serve,fails,Tables.failure,if_true,Option.bind_some] at beaten
    exact .inl ⟨(Option.some.inj beaten).symm,by simp [Repeats,fails]⟩
  | false =>
    simp only [heartbeat,Tables.serve,fails,Tables.refuses,if_false,Bool.false_eq_true,Option.bind_some] at beaten
    cases cached : s.processorHeartBeat (toString proc.id) with
    | none =>
      rw [cached] at beaten
      obtain ⟨kept,tried⟩ := changeStatus_spec beaten
      exact .inr (.inr ⟨kept,by rw [Repeats,cached]; simp,tried⟩)
    | some previousHeartbeat =>
      simp only [cached] at beaten
      by_cases same : previousHeartbeat.status = proc.status
      · rw [if_neg (not_not.mpr same)] at beaten
        exact .inr (.inl ⟨(Option.some.inj beaten).symm,by rw [Repeats,cached]; simp [fails,same]⟩)
      · rw [if_pos same] at beaten
        obtain ⟨kept,tried⟩ := changeStatus_spec beaten
        exact .inr (.inr ⟨kept,by rw [Repeats,cached]; simp [same],tried⟩)

end

theorem heartbeat_handled (useResourceDispatch : Bool) (env : ℕ → Env) (proc : ErProcessor) (s : Manager) :
    (heartbeat useResourceDispatch env proc s).isSome = true := by
  have total (tables : Tables) (op : Op) (env : Env) : (Tables.serve tables op env).isSome = true := by
    unfold Tables.serve
    split
    · rfl
    · split <;> rfl
  have changes (s : Manager) : (changeStatus useResourceDispatch env proc s).isSome = true := by
    rw [changeStatus,Option.isSome_map]
    exact Program.run_total total env _ s.tables 1
  obtain ⟨read,served⟩ := Option.isSome_iff_exists.mp (total s.tables (.getProcessor proc.id) (env 0))
  rw [heartbeat,served,Option.bind_some]
  split
  · rfl
  · split
    · exact changes _
    · split
      · exact changes _
      · rfl

def Cached (s : Manager) : Prop :=
  ∀ id previousHeartbeat, s.processorHeartBeat (toString id) = some previousHeartbeat →
    ∃ beat, lastAttempt id s.beats = some beat ∧ beat.status = previousHeartbeat.status

private theorem lastAttempt_other {id : Int} {beat : Beat} (earlier : List Beat) (other : (beat.id = id && beat.attempted) = false) :
    lastAttempt id (beat :: earlier) = lastAttempt id earlier := by
  rw [lastAttempt,List.find?_cons,other]
  rfl

private theorem lastAttempt_same {id : Int} {beat : Beat} (earlier : List Beat) (same : (beat.id = id && beat.attempted) = true) :
    lastAttempt id (beat :: earlier) = some beat := by
  rw [lastAttempt,List.find?_cons,same]

theorem Cached.step {useResourceDispatch : Bool} {s t : Manager} {event : Event} (inv : Cached s)
    (stepped : (manager useResourceDispatch).step s event = some t) : Cached t := by
  cases event with
  | drop key =>
    obtain rfl := Option.some.inj stepped
    intro id previousHeartbeat found
    apply inv id previousHeartbeat
    change Function.update s.processorHeartBeat key none (toString id) = some previousHeartbeat at found
    by_cases same : toString id = key
    · rw [same,Function.update_self] at found
      cases found
    · rwa [Function.update_of_ne same] at found
  | others tables =>
    obtain rfl := Option.some.inj stepped
    exact inv
  | heartbeat proc env =>
    rcases heartbeat_spec stepped with ⟨rfl,_⟩ | ⟨rfl,_⟩ | ⟨cache,_,outcome,beats,tried⟩
    · intro id previousHeartbeat found
      rw [Manager.record,lastAttempt_other _ (by simp [Beat.attempted])]
      exact inv id previousHeartbeat found
    · intro id previousHeartbeat found
      rw [Manager.record,lastAttempt_other _ (by simp [Beat.attempted])]
      exact inv id previousHeartbeat found
    · intro id previousHeartbeat found
      rw [cache] at found
      rw [beats]
      by_cases same : proc.id = id
      · subst same
        refine ⟨_,lastAttempt_same s.beats ?_,?_⟩
        · rcases tried with rfl | rfl <;> simp [Beat.attempted]
        · rw [s.put_self proc] at found
          rw [← Option.some.inj found]
      · rw [lastAttempt_other _ (by simp [same])]
        apply inv id previousHeartbeat
        -- no two processors share a key
        have keys : toString id ≠ toString proc.id := fun equal => same (Int.repr_injective equal).symm
        rw [← found,s.put_other keys]

section
variable {id : Int} {status : String} {earlier : List Beat} {beat : Beat}

private theorem split_lastAttempt {between : List Beat} (before : List Beat) (own : beat.id = id) (tried : beat.attempted = true)
    (untried : ∀ other ∈ between, other.id = id → other.attempted = false) :
    lastAttempt id (between ++ beat :: before) = some beat ∧ sinceAttempt id (between ++ beat :: before) = between := by
  have skipped : ∀ other ∈ between, (other.id = id && other.attempted) = false := by
    intro other member
    by_cases same : other.id = id
    · simp [untried other member same]
    · simp [same]
  have taken : (beat.id = id && beat.attempted) = true := by simp [own,tried]
  constructor
  · rw [lastAttempt,List.find?_append,List.find?_eq_none.mpr (fun other member => by rw [skipped other member]; simp)]
    rw [List.find?_cons,taken]
    rfl
  · rw [sinceAttempt,List.takeWhile_append_of_pos (fun other member => by rw [skipped other member]; rfl)]
    rw [List.takeWhile_cons,taken]
    simp

private theorem lastAttempt_split (last : lastAttempt id earlier = some beat) :
    beat.id = id ∧ beat.attempted = true ∧ (∃ before, earlier = sinceAttempt id earlier ++ beat :: before) ∧
      ∀ other ∈ sinceAttempt id earlier, other.id = id → other.attempted = false := by
  obtain ⟨taken,between,before,split,skipped⟩ := List.find?_eq_some_iff_append.mp last
  simp only [Bool.and_eq_true,decide_eq_true_eq] at taken
  have untried : ∀ other ∈ between, other.id = id → other.attempted = false := by
    intro other member same
    simpa [same] using skipped other member
  have since := (split_lastAttempt before taken.1 taken.2 untried).2
  rw [← split] at since
  rw [since]
  exact ⟨taken.1,taken.2,⟨before,split⟩,untried⟩

private theorem failedLast_iff (last : lastAttempt id earlier = some beat) : FailedLast id earlier ↔ beat.outcome = .failed := by
  constructor
  · rintro ⟨between,other,before,rfl,own,failed,untried⟩
    have tried : other.attempted = true := by simp [Beat.attempted,failed]
    have same := Option.some.inj (last.symm.trans (split_lastAttempt before own tried untried).1)
    rw [same]
    exact failed
  · intro failed
    obtain ⟨own,_,⟨before,split⟩,untried⟩ := lastAttempt_split last
    exact ⟨_,beat,before,split,own,failed,untried⟩

private theorem appliedSince_iff (last : lastAttempt id earlier = some beat) (same : beat.status = status)
    (worked : beat.outcome ≠ .failed) :
    AppliedSince id status earlier ↔ ∀ other ∈ sinceAttempt id earlier, other.id = id → other.status = status := by
  obtain ⟨own,tried,⟨before,split⟩,_⟩ := lastAttempt_split last
  constructor
  · rintro ⟨between,other,rest,rfl,theirs,_,applied,all⟩ one member
    apply all one
    have attempt : (other.id = id && other.attempted) = true := by simp [Beat.attempted,theirs,applied]
    rw [sinceAttempt,List.takeWhile_append] at member
    split at member
    · rw [List.takeWhile_cons,attempt] at member
      simpa using member
    · exact List.takeWhile_subset _ member
  · intro all
    have applied : beat.outcome = .applied := by
      simpa [Beat.attempted,worked] using tried
    exact ⟨_,beat,before,split,own,same,applied,all⟩

end

private theorem neverLost_cons (beat : Beat) (earlier : List Beat) : NeverLost (beat :: earlier) ↔
    NeverLost earlier ∧
      (beat.outcome = .suppressed → AppliedSince beat.id beat.status earlier ∧ ¬ FailedLast beat.id earlier) := by
  constructor
  · intro kept
    refine ⟨fun later other before split => kept (beat :: later) other before (by rw [split]; rfl),?_⟩
    exact kept [] beat earlier rfl
  · rintro ⟨kept,first⟩ later other before split
    cases later with
    | nil =>
      obtain ⟨rfl,rfl⟩ := List.cons.inj split
      exact first
    | cons head later => exact kept later other before (List.cons.inj split).2

private theorem step_neverLost {useResourceDispatch : Bool} {s t : Manager} {event : Event} (inv : Cached s)
    (stepped : (manager useResourceDispatch).step s event = some t) :
    NeverLost t.beats ↔ NeverLost s.beats ∧ Safe s event = true := by
  cases event with
  | drop key =>
    obtain rfl := Option.some.inj stepped
    simp [Safe]
  | others tables =>
    obtain rfl := Option.some.inj stepped
    simp [Safe]
  | heartbeat proc env =>
    rcases heartbeat_spec stepped with ⟨rfl,new⟩ | ⟨rfl,repeated⟩ | ⟨_,new,outcome,beats,tried⟩
    · simp [Safe,new,Manager.record,neverLost_cons]
    · rw [Manager.record,neverLost_cons]
      apply and_congr_right
      intro _
      cases cached : s.processorHeartBeat (toString proc.id) with
      | none => rw [Repeats,cached] at repeated; simp at repeated
      | some previousHeartbeat =>
        have same : previousHeartbeat.status = proc.status := by
          rw [Repeats,cached] at repeated
          simpa using (Bool.and_eq_true_iff.mp repeated).2
        obtain ⟨beat,last,status⟩ := inv proc.id previousHeartbeat cached
        simp only [Safe,repeated,last,failedLast_iff last,forall_true_left]
        by_cases failed : beat.outcome = .failed
        · simp [failed]
        · rw [appliedSince_iff last (status.trans same) failed]
          simp [failed,imp_iff_not_or]
    · rw [beats,neverLost_cons]
      rcases tried with rfl | rfl <;> simp [Safe,new]

/-- The runs in which no heartbeat is lost are those whose steps are all safe. -/
theorem heartbeats_kept {useResourceDispatch : Bool} {s t : Manager} {events : List Event}
    (started : (manager useResourceDispatch).start s) :
    ((manager useResourceDispatch).restrict Safe).Run s events t ↔
      (manager useResourceDispatch).Run s events t ∧ NeverLost t.beats := by
  obtain ⟨empty,untried⟩ := started
  apply System.restrict_run_iff (P := Cached) (Q := fun s => NeverLost s.beats)
  · intro s event t inv stepped
    exact inv.step stepped
  · intro s event t inv stepped
    exact step_neverLost inv stepped
  · intro id previousHeartbeat found
    rw [empty] at found
    cases found
  · intro later beat earlier split
    rw [untried] at split
    exact absurd split.symm (by simp)

def newProcessor : SessionProcessor := ⟨1,"s",1,"egg_pair","NEW",none,"",none,none,[],none⟩

def begun : Manager :=
  ⟨fun _ => none,⟨[⟨"s","","NEW",none,none,"",some 1,some 0⟩],[],[newProcessor],2,[],[]⟩,[]⟩

def running (env : ℕ → Env) : Event := .heartbeat { newProcessor.toErProcessor with status := "RUNNING" } env

theorem heartbeats_kept_running : ∃ t, ((manager false).restrict Safe).Run begun
    [running fun _ => {},running fun _ => {}] t ∧ NeverLost t.beats := by
  have ran : (((manager false).restrict Safe).exec begun [running fun _ => {},running fun _ => {}]).isSome = true := by
    decide +kernel
  obtain ⟨t,run⟩ := Option.isSome_iff_exists.mp ran
  exact ⟨t,run,((heartbeats_kept ⟨rfl,rfl⟩).mp run).2⟩

/-- The database fails when the first `RUNNING` is to be stored, and within the minute the
processor reports it again. -/
def afterFailure : List Event := [running fun n => { fails := n = 3 },running fun _ => {}]

theorem heartbeat_lost : ∃ t, (manager false).Run begun afterFailure t ∧
    (t.tables.processor 1).map SessionProcessor.status = some "NEW" ∧ ¬ NeverLost t.beats := by
  have ran : ((manager false).exec begun afterFailure).any (fun t => decide
      (t.beats = [⟨1,"RUNNING",.suppressed⟩,⟨1,"RUNNING",.failed⟩] ∧
        (t.tables.processor 1).map SessionProcessor.status = some "NEW")) = true := by
    decide +kernel
  obtain ⟨t,run,found⟩ := (Option.any_eq_true _ _).mp ran
  obtain ⟨beats,stored⟩ := of_decide_eq_true found
  refine ⟨t,run,stored,fun kept => ?_⟩
  obtain ⟨between,beat,before,split,_,_,applied,_⟩ := (kept [] _ _ beats rfl).1
  have member : beat ∈ [(⟨1,"RUNNING",.failed⟩ : Beat)] := by
    rw [split]
    simp
  rw [List.mem_singleton.mp member] at applied
  cases applied

end Eggroll.Cluster.DefaultProcessorManager
