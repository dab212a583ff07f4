import Eggroll.Dispatcher

/-! The dispatcher's queue. Whatever is answered is taken off the head, once, and nothing
else is; the thread goes on as long as it refuses nobody. -/
namespace Eggroll.Dispatcher
open Library ResourceApplication ResourceDispatch

namespace Pc

/-- The application whose answer is decided and that is still in the queue. -/
def pending : Pc → List Nat
  | .dropRemove a | .expiredRemove a | .refuseCount a | .refuseRemove a | .remove a => [a]
  | _ => []

def working : Pc → Option Nat
  | .lock a | .readStatus a | .dropRemove a | .readWaiting a | .expiredRemove a | .nodes a _
  | .check a _ | .strategy a _ | .refuseCount a | .refuseRemove a | .dispatch a _ | .register a _
  | .refill a _ _ | .count a | .remove a => some a
  | .unlock a (.continues _) | .unlock a .throws | .unlock a (.normal _ _) => some a
  | _ => none

def leaving : Pc → Bool
  | .refuseCount _ | .refuseRemove _ | .unlock _ .returns | .quit => true
  | _ => false

end Pc

def SubmitterPc.queued : SubmitterPc → Bool
  | .start | .save | .put | .failed => false
  | _ => true

structure QueueSound (s : State) : Prop where
  order : s.submitted = s.removed ++ s.queue
  answers : s.answered.map Prod.snd = s.removed ++ s.pc.pending
  head : ∀ a, s.pc.working = some a → s.queue.head? = some a
  once : s.submitted.Nodup
  queued : ∀ a ∈ s.submitted, (s.submitter a).queued = true

namespace QueueSound
variable {s : State} {a : Nat} {next : Pc}

theorem setApp (sound : QueueSound s) (app : ResourceApplication) : QueueSound (s.setApp a app) :=
  ⟨sound.order,sound.answers,sound.head,sound.once,sound.queued⟩

theorem goto (sound : QueueSound s) (pending : next.pending = s.pc.pending)
    (working : next.working = none ∨ next.working = s.pc.working) : QueueSound (s.goto next) := by
  refine ⟨sound.order,pending ▸ sound.answers,fun a found => ?_,sound.once,sound.queued⟩
  rcases working with free | same
  · rw [State.goto,free] at found
    cases found
  · exact sound.head a (same.symm.trans found)

theorem answer (sound : QueueSound s) (outcome : Outcome) (undecided : s.pc.pending = [])
    (pending : next.pending = [a]) (working : next.working = s.pc.working) :
    QueueSound ((s.answer outcome a).goto next) := by
  refine ⟨sound.order,?_,fun a found => sound.head a (working.symm.trans found),sound.once,sound.queued⟩
  have before := sound.answers
  rw [undecided,List.append_nil] at before
  simp [State.goto,State.answer,before,pending]

theorem take (sound : QueueSound s) {thrown : Pc} (pending : s.pc.pending = [a])
    (working : s.pc.working = some a) (decided : next.pending = []) (free : next.working = none) :
    QueueSound (s.take next thrown) := by
  have head := sound.head a working
  unfold State.take
  cases items : s.queue with
  | nil => simp [items] at head
  | cons first rest =>
    have same : first = a := by simpa [items] using head
    subst same
    refine ⟨?_,?_,fun b found => ?_,sound.once,sound.queued⟩
    · simp [State.goto,sound.order,items]
    · simp [State.goto,sound.answers,pending,decided]
    · simp [State.goto,free] at found

private theorem proceed (sound : QueueSound s) {now : Pc} (pc : s.pc = now) (pending : next.pending = now.pending)
    (working : next.working = now.working) : QueueSound (s.goto next) :=
  sound.goto (by rw [pc,pending]) (.inr (by rw [pc,working]))

private theorem depart (sound : QueueSound s) {now : Pc} (pc : s.pc = now) (pending : next.pending = now.pending)
    (free : next.working = none) : QueueSound (s.goto next) :=
  sound.goto (by rw [pc,pending]) (.inl free)

theorem dispatcher (setting : Setting) (sound : QueueSound s) {answer : Answer} {t : State}
    (stepped : dispatcherStep setting s answer = some t) : QueueSound t := by
  unfold dispatcherStep at stepped
  split at stepped
  -- outer
  · rename_i pc
    split at stepped
    · cases stepped
      exact sound
    · rename_i app rest items
      cases stepped
      refine ⟨sound.order,?_,fun b found => ?_,sound.once,sound.queued⟩
      · have := sound.answers
        rwa [pc] at this
      · cases found
        exact items ▸ rfl
  -- lock
  · rename_i pc
    cases stepped
    exact sound.proceed pc rfl rfl
  · rename_i pc
    cases stepped
    exact sound.proceed pc rfl rfl
  -- readStatus
  · rename_i pc
    split at stepped
    · cases stepped
      exact sound.proceed pc rfl rfl
    · split at stepped
      · cases stepped
        exact sound.answer .cancelled (by rw [pc]; rfl) rfl (by rw [pc]; rfl)
      · cases stepped
        exact sound.proceed pc rfl rfl
  · rename_i pc
    cases stepped
    exact sound.proceed pc rfl rfl
  -- dropRemove
  · rename_i pc
    cases stepped
    exact sound.take (by rw [pc]; rfl) (by rw [pc]; rfl) rfl rfl
  -- dropCount
  · rename_i pc
    cases stepped
    exact (sound.setApp _).depart pc rfl rfl
  -- readWaiting
  · rename_i pc
    split at stepped
    · cases stepped
      exact sound.answer .expired (by rw [pc]; rfl) rfl (by rw [pc]; rfl)
    · cases stepped
      exact sound.proceed pc rfl rfl
  -- expiredRemove
  · rename_i pc
    cases stepped
    exact sound.take (by rw [pc]; rfl) (by rw [pc]; rfl) rfl rfl
  -- nodes
  · rename_i pc
    split at stepped <;> cases stepped <;> exact sound.proceed pc rfl rfl
  · rename_i pc
    cases stepped
    exact sound.proceed pc rfl rfl
  -- check
  · rename_i pc
    split at stepped
    · cases stepped
      exact sound.proceed pc rfl rfl
    · rename_i enough app checked
      cases stepped
      cases enough <;> exact (sound.setApp app).proceed pc rfl rfl
  -- strategy
  · rename_i a nodes pc
    split at stepped
    · cases stepped
      exact sound.proceed pc rfl rfl
    · split at stepped
      · cases stepped
        exact sound.proceed pc rfl rfl
      · split at stepped
        · cases stepped
          exact sound.proceed pc rfl rfl
        · split at stepped
          · cases stepped
            have refused : QueueSound ((s.answer .refused a).goto (.refuseCount a)) :=
              sound.answer .refused (by rw [pc]; rfl) rfl (by rw [pc]; rfl)
            exact refused.setApp _
          · cases stepped
            exact sound.proceed pc rfl rfl
  -- refuseCount
  · rename_i pc
    cases stepped
    exact (sound.setApp _).proceed pc rfl rfl
  -- refuseRemove
  · rename_i pc
    cases stepped
    exact sound.take (by rw [pc]; rfl) (by rw [pc]; rfl) rfl rfl
  -- dispatch
  · rename_i pc
    split at stepped <;> cases stepped <;> exact (sound.setApp _).proceed pc rfl rfl
  -- register
  · rename_i a nodes pc
    cases stepped
    have stored : QueueSound (s.register a) :=
      ⟨sound.order,sound.answers,sound.head,sound.once,sound.queued⟩
    exact stored.proceed pc rfl rfl
  · rename_i pc
    cases stepped
    exact sound.proceed pc rfl rfl
  -- unlock
  · rename_i pc
    split at stepped <;> cases stepped
    · exact sound.depart pc rfl rfl
    · exact sound.depart pc rfl rfl
    · exact sound.depart pc rfl rfl
    · exact sound.proceed pc rfl rfl
    · exact sound.depart pc rfl rfl
    · exact sound.proceed pc rfl rfl
  · rename_i pc
    cases stepped
    exact sound.depart pc rfl rfl
  -- refill
  · rename_i pc
    cases stepped
    dsimp only
    split
    · exact (sound.setApp _).proceed pc rfl rfl
    · exact (sound.setApp _).depart pc rfl rfl
  -- count
  · rename_i a pc
    cases stepped
    have decided : QueueSound ((s.answer .dispatched a).goto (.remove a)) :=
      sound.answer .dispatched (by rw [pc]; rfl) rfl (by rw [pc]; rfl)
    exact decided.setApp _
  -- remove
  · rename_i pc
    cases stepped
    exact sound.take (by rw [pc]; rfl) (by rw [pc]; rfl) rfl rfl
  · cases stepped

theorem submitter (sound : QueueSound s) {t : State} {pc : SubmitterPc}
    (moved : t.submitter = Function.update s.submitter a pc)
    (same : t.submitted = s.submitted ∧ t.removed = s.removed ∧ t.queue = s.queue ∧
      t.answered = s.answered ∧ t.pc = s.pc)
    (kept : (s.submitter a).queued = true → pc.queued = true) : QueueSound t := by
  obtain ⟨submitted,removed,queue,answered,place⟩ := same
  refine ⟨?_,?_,?_,?_,fun b member => ?_⟩
  · rw [submitted,removed,queue]
    exact sound.order
  · rw [answered,removed,place]
    exact sound.answers
  · rw [place,queue]
    exact sound.head
  · rw [submitted]
    exact sound.once
  · rw [moved,Function.update_apply]
    rw [submitted] at member
    split
    · rename_i this
      exact kept (this ▸ sound.queued b member)
    · exact sound.queued b member

theorem submit (sound : QueueSound s) {t : State} (stepped : submitStep s a = some t) : QueueSound t := by
  unfold submitStep at stepped
  dsimp only at stepped
  split at stepped
  · rename_i at_start
    cases stepped
    exact sound.submitter rfl ⟨rfl,rfl,rfl,rfl,rfl⟩ (fun known => by simp [at_start,SubmitterPc.queued] at known)
  · rename_i at_save
    split at stepped <;> cases stepped
    · exact sound.submitter rfl ⟨rfl,rfl,rfl,rfl,rfl⟩ (fun known => by simp [at_save,SubmitterPc.queued] at known)
    · exact sound.submitter rfl ⟨rfl,rfl,rfl,rfl,rfl⟩ (fun known => by simp [at_save,SubmitterPc.queued] at known)
  · rename_i at_put
    split at stepped
    · cases stepped
      have new : a ∉ s.submitted := fun member => by
        have := sound.queued a member
        simp [at_put,SubmitterPc.queued] at this
      refine ⟨by simp [sound.order],sound.answers,fun b working => ?_,?_,fun b member => ?_⟩
      · have head := sound.head b working
        rw [List.head?_eq_some_iff] at head
        obtain ⟨rest,items⟩ := head
        simp [items]
      · exact List.nodup_append.mpr ⟨sound.once,List.nodup_singleton a,by
          rintro b member c only rfl
          exact new (List.mem_singleton.mp only ▸ member)⟩
      · simp only [Function.update_apply]
        split
        · rfl
        · rename_i other
          rcases List.mem_append.mp member with before | now
          · exact sound.queued b before
          · exact absurd (List.mem_singleton.mp now) other
    · cases stepped
  · cases stepped

theorem endWait (sound : QueueSound s) {t : State} {result : Option (List (ProcessorRef × ErServerNode))}
    (stepped : endWait s a result = some t) : QueueSound t := by
  unfold Dispatcher.endWait at stepped
  split at stepped
  · cases stepped
    exact sound.submitter rfl ⟨rfl,rfl,rfl,rfl,rfl⟩ (fun _ => rfl)
  · cases stepped

theorem leave (sound : QueueSound s) {t : State} (stepped : leaveStep s a = some t) : QueueSound t := by
  unfold leaveStep at stepped
  split at stepped
  · cases stepped
    exact sound.submitter rfl ⟨rfl,rfl,rfl,rfl,rfl⟩ (fun _ => rfl)
  · cases stepped

theorem kill (sound : QueueSound s) {t : State} {sid : String} {status : SessionStatus}
    (stepped : killStep s sid status = some t) : QueueSound t := by
  unfold killStep at stepped
  split at stepped
  · split at stepped
    · cases stepped
      exact ⟨sound.order,sound.answers,sound.head,sound.once,sound.queued⟩
    · cases stepped
  · cases stepped

theorem step (setting : Setting) (sound : QueueSound s) {act : Act} {t : State}
    (stepped : (system setting).step s act = some t) : QueueSound t := by
  cases act with
  | dispatcher answer => exact sound.dispatcher setting stepped
  | submit a => exact sound.submit stepped
  | await a =>
    simp only [system] at stepped
    split at stepped
    · exact sound.endWait stepped
    · cases stepped
  | timeout a =>
    simp only [system] at stepped
    split at stepped
    · exact sound.endWait stepped
    · cases stepped
  | interrupt a => exact sound.endWait stepped
  | leave a => exact sound.leave stepped
  | kill sid status => exact sound.kill stepped

theorem start (setting : Setting) (started : (system setting).start s) : QueueSound s := by
  obtain ⟨-,queue,pc,-,submitted,answered,removed,-⟩ := started
  refine ⟨?_,?_,fun b found => ?_,?_,fun b member => ?_⟩
  · rw [submitted,removed,queue]
    rfl
  · rw [answered,removed,pc]
    rfl
  · rw [pc] at found
    cases found
  · rw [submitted]
    exact List.nodup_nil
  · rw [submitted] at member
    cases member

private theorem pending_head (sound : QueueSound s) : ∀ a ∈ s.pc.pending, s.queue.head? = some a := by
  intro a member
  apply sound.head
  revert member
  cases s.pc <;> simp [Pc.pending,Pc.working]
  all_goals exact Eq.symm

theorem answered_once (sound : QueueSound s) : (s.answered.map Prod.snd).Nodup := by
  have once := sound.once
  rw [sound.order] at once
  have few : s.pc.pending.Sublist s.queue := by
    cases pending : s.pc.pending with
    | nil => exact List.nil_sublist _
    | cons a rest =>
      have one : rest = [] := by
        revert pending
        cases s.pc <;> simp [Pc.pending]
      obtain ⟨later,items⟩ := List.head?_eq_some_iff.mp (sound.pending_head a (by simp [pending]))
      rw [one,items]
      exact List.singleton_sublist.mpr List.mem_cons_self
  rw [sound.answers]
  exact once.sublist (few.append_left s.removed)

end QueueSound

/-- Whoever is found not to have enough does not have the strategy `throw_error` then, be
it from the submitter or from the check. -/
def endures (s : State) : Act → Bool
  | .dispatcher _ =>
    match s.pc with
    | .strategy a _ => decide ((s.apps a).resourceExhaustedStrategy ≠ some Dict.THROW_ERROR)
    | _ => true
  | _ => true

private theorem dispatcher_stays {setting : Setting} {s t : State} {answer : Answer} (going : s.pc.leaving = false)
    (allowed : endures s (.dispatcher answer) = true)
    (stepped : dispatcherStep setting s answer = some t) : t.pc.leaving = false := by
  have take_stays {next thrown : Pc} (on : next.leaving = false) (other : thrown.leaving = false) :
      (s.take next thrown).pc.leaving = false := by
    unfold State.take
    split
    · exact other
    · exact on
  unfold dispatcherStep at stepped
  split at stepped
  case h_1 =>
    split at stepped <;> cases stepped
    · exact going
    · rfl
  case h_4 =>
    split at stepped
    · cases stepped
      rfl
    · split at stepped <;> cases stepped <;> rfl
  case h_6 | h_9 =>
    cases stepped
    exact take_stays rfl rfl
  case h_8 => split at stepped <;> cases stepped <;> rfl
  case h_10 => split at stepped <;> cases stepped <;> rfl
  case h_12 =>
    split at stepped
    · cases stepped
      rfl
    · rename_i enough app checked
      cases stepped
      cases enough <;> rfl
  case h_13 a nodes pc =>
    rw [endures,pc] at allowed
    split at stepped
    · cases stepped
      rfl
    · rename_i strategy found
      split at stepped
      · cases stepped
        rfl
      · split at stepped
        · cases stepped
          rfl
        · split at stepped
          · rename_i refused
            simp [found,refused] at allowed
          · cases stepped
            rfl
  case h_14 pc | h_15 pc => simp [pc,Pc.leaving] at going
  case h_16 => split at stepped <;> cases stepped <;> rfl
  case h_19 pc =>
    split at stepped
    case h_5 => simp [pc,Pc.leaving] at going
    all_goals
      cases stepped
      rfl
  case h_21 =>
    cases stepped
    dsimp only
    split <;> rfl
  case h_23 =>
    cases stepped
    exact take_stays rfl rfl
  all_goals
    cases stepped
  all_goals rfl

theorem others_frame {setting : Setting} {s t : State} {act : Act}
    (other : ∀ answer, act ≠ .dispatcher answer) (stepped : (system setting).step s act = some t) :
    t.pc = s.pc ∧ t.answered = s.answered ∧ t.registered = s.registered := by
  have ended {a : Nat} {result : Option (List (ProcessorRef × ErServerNode))}
      (left : endWait s a result = some t) :
      t.pc = s.pc ∧ t.answered = s.answered ∧ t.registered = s.registered := by
    unfold endWait at left
    split at left <;> cases left
    exact ⟨rfl,rfl,rfl⟩
  cases act with
  | dispatcher answer => exact absurd rfl (other answer)
  | submit a =>
    simp only [system,submitStep] at stepped
    split at stepped
    · cases stepped
      exact ⟨rfl,rfl,rfl⟩
    · split at stepped <;> cases stepped <;> exact ⟨rfl,rfl,rfl⟩
    · split at stepped <;> cases stepped
      exact ⟨rfl,rfl,rfl⟩
    · cases stepped
  | await a =>
    simp only [system] at stepped
    split at stepped
    · exact ended stepped
    · cases stepped
  | timeout a =>
    simp only [system] at stepped
    split at stepped
    · exact ended stepped
    · cases stepped
  | interrupt a => exact ended stepped
  | leave a =>
    simp only [system,leaveStep] at stepped
    split at stepped <;> cases stepped
    exact ⟨rfl,rfl,rfl⟩
  | kill sid status =>
    simp only [system,killStep] at stepped
    split at stepped
    · split at stepped <;> cases stepped
      exact ⟨rfl,rfl,rfl⟩
    · cases stepped

/-- Where nobody is refused, the dispatch thread stays in its loop; in every state, what is
answered is what was taken off the head of the queue, each application once, but for the
one answer whose removal is the thread's next step. -/
theorem dispatch_loop (setting : Setting) {s : State}
    (reached : ((system setting).restrict endures).Reachable s) :
    s.pc ≠ .quit ∧ s.submitted = s.removed ++ s.queue ∧
      s.answered.map Prod.snd = s.removed ++ s.pc.pending ∧ (s.answered.map Prod.snd).Nodup ∧
      ∀ a ∈ s.pc.pending, s.queue.head? = some a := by
  have both : s.pc.leaving = false ∧ QueueSound s := by
    apply reached.invariant (P := fun s => s.pc.leaving = false ∧ QueueSound s)
    · rintro s started
      refine ⟨?_,QueueSound.start setting started⟩
      rw [started.2.2.1]
      rfl
    · rintro s act t ⟨going,sound⟩ stepped
      obtain ⟨allowed,stepped⟩ := (System.restrict_step_iff _ _ _ _ _).mp stepped
      refine ⟨?_,sound.step setting stepped⟩
      cases act with
      | dispatcher answer => exact dispatcher_stays going allowed stepped
      | _ => exact (others_frame (by simp) stepped).1 ▸ going
  obtain ⟨going,sound⟩ := both
  exact ⟨fun quit => by simp [quit,Pc.leaving] at going,sound.order,sound.answers,sound.answered_once,
    sound.pending_head⟩

/-- An application waits for a busy node and is dispatched on the next turn. -/
theorem dispatch_loop_waiting : ∃ s, ((system plainSetting).restrict endures).Reachable s ∧
    s.answered = [(.dispatched,0)] ∧ s.pc ≠ .quit ∧ s.removed ++ s.pc.pending = [0] := by
  have ran : (((system plainSetting).restrict endures).exec (.fresh fun _ => oneProcessor "session" 3)
      (submits 0 ++ passes [fourCores 2] ++ [.dispatcher .ok] ++ passes [fourCores 0] ++
        [.dispatcher (.shuffled []),.dispatcher .ok,.dispatcher .ok,.dispatcher .ok,.dispatcher .ok])).any
      (fun s => decide (s.answered = [(.dispatched,0)])) = true := by decide +kernel
  obtain ⟨s,run,found⟩ := (Option.any_eq_true _ _).mp ran
  have answered := of_decide_eq_true found
  have reached : ((system plainSetting).restrict endures).Reachable s :=
    ⟨_,_,State.fresh_start plainSetting fun _ => ⟨rfl,rfl,rfl,rfl⟩,run⟩
  obtain ⟨going,-,removed,-⟩ := dispatch_loop plainSetting reached
  exact ⟨s,reached,answered,going,by rw [← removed,answered]; rfl⟩

/-- An application that asks for more than the cluster has ends the dispatch thread; the
application behind it stays in the queue. -/
theorem dispatch_loop_quits : ∃ s, (system plainSetting).Reachable s ∧
    s.answered = [(.refused,0)] ∧ s.pc = .quit ∧ s.queue = [1] := by
  have ran : ((system plainSetting).exec
      (.fresh fun a => if a = 0 then oneProcessor "first" 5 else oneProcessor "second" 1)
      (submits 0 ++ submits 1 ++ passes [fourCores 0] ++
        [.dispatcher .ok,.dispatcher .ok,.dispatcher .ok,.dispatcher .ok])).any
      (fun s => decide (s.answered = [(.refused,0)]) && decide (s.pc = .quit) && decide (s.queue = [1])) =
        true := by decide +kernel
  obtain ⟨s,run,found⟩ := (Option.any_eq_true _ _).mp ran
  simp only [Bool.and_eq_true,decide_eq_true_eq] at found
  refine ⟨s,⟨_,_,⟨fun a => ?_,rfl,rfl,fun _ => rfl,rfl,rfl,rfl,rfl⟩,run⟩,found.1.1,found.1.2,found.2⟩
  by_cases first : a = 0
  · simp only [State.fresh,first,if_true]
    exact ⟨rfl,rfl,rfl,rfl⟩
  · simp only [State.fresh,first,if_false]
    exact ⟨rfl,rfl,rfl,rfl⟩

end Eggroll.Dispatcher
