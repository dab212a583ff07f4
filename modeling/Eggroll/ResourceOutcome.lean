import Eggroll.DispatcherQueue

/-! What a submitter is told about its request and what became of it. A request stands at
one of a few stages; every step of the dispatch thread moves it from one to the next, and
what `getResult` gives is read off the stage. -/
namespace Eggroll.Dispatcher
open Library ResourceApplication ResourceDispatch

namespace Pc

def app : Pc → Option Nat
  | .lock a | .readStatus a | .dropRemove a | .dropCount a | .readWaiting a | .expiredRemove a | .nodes a _
  | .check a _ | .strategy a _ | .refuseCount a | .refuseRemove a | .dispatch a _ | .register a _
  | .unlock a _ | .refill a _ _ | .count a | .remove a => some a
  | .outer | .quit => none

def past : Pc → Bool
  | .nodes _ _ | .check _ _ | .strategy _ _ | .dispatch _ _ | .register _ _ | .unlock _ (.normal _ _)
  | .refill _ _ _ | .count _ => true
  | _ => false

def committed : Pc → Bool
  | .register _ _ | .unlock _ (.normal _ _) | .refill _ _ _ | .count _ | .dropRemove _ | .dropCount _
  | .expiredRemove _ | .refuseCount _ | .refuseRemove _ | .remove _ => true
  | _ => false

def releases : Pc → Bool
  | .dropRemove _ | .dropCount _ | .refuseCount _ => true
  | _ => false

end Pc

/-- The processors of a dispatch: each once, with one of the nodes, and those requested
where the strategy places these. -/
structure Ready (nodes : Nodes) (app : ResourceApplication) (refs : List ProcessorRef) : Prop where
  once : refs.Nodup
  served : ∀ ref ∈ refs, Served nodes app ref
  requested : ∀ strategy ∈ placing, app.dispatchStrategy = some strategy →
    refs.Perm (firstRequested app.processors.length)

/-- What has been dispatched is what has been registered. -/
structure Given (a : Nat) (s : State) : Prop where
  once : ((s.apps a).resourceDispatch.map Prod.fst).Nodup
  requested : ∀ strategy ∈ placing, (s.apps a).dispatchStrategy = some strategy →
    ((s.apps a).resourceDispatch.map Prod.fst).Perm (firstRequested (s.apps a).processors.length)
  registered : (a,(s.apps a).resourceDispatch.map Prod.fst) ∈ s.registered

/-- Nothing is placed and nothing registered. -/
structure Clear (a : Nat) (s : State) : Prop where
  idle : (s.apps a).resourceDispatch = []
  fresh : ∀ refs, (a,refs) ∉ s.registered

/-- No answer yet, and the latch is up. -/
structure Unanswered (a : Nat) (s : State) : Prop where
  answers : ∀ outcome, (outcome,a) ∉ s.answered
  latch : (s.apps a).latch = false

inductive Stage (a : Nat) (s : State) : Prop
  | waiting (pc : s.pc.app = some a → s.pc.committed = false) (unanswered : Unanswered a s) (clear : Clear a s)
  | placed (nodes : Nodes) (pc : s.pc = .register a nodes) (unanswered : Unanswered a s)
      (ready : Ready nodes (s.apps a) ((s.apps a).resourceDispatch.map Prod.fst))
      (fresh : ∀ refs, (a,refs) ∉ s.registered)
  | stored (nodes : Nodes) (refs : List ProcessorRef)
      (pc : s.pc = .unlock a (.normal nodes refs) ∨ s.pc = .refill a nodes refs) (unanswered : Unanswered a s)
      (ready : Ready nodes (s.apps a) refs) (registered : (a,refs) ∈ s.registered)
  | counting (pc : s.pc = .count a) (unanswered : Unanswered a s) (given : Given a s)
  | cancelled (answer : (.cancelled,a) ∈ s.answered) (clear : Clear a s)
  | expired (pc : s.pc.app = some a → s.pc.releases = false) (answer : (.expired,a) ∈ s.answered)
      (latch : (s.apps a).latch = false) (clear : Clear a s)
  | dispatched (answer : (.dispatched,a) ∈ s.answered) (given : Given a s)

/-- What concerns the request `a` is the same, but for its strategy, latch, counter and status. -/
structure Same (a : Nat) (s t : State) : Prop where
  app : t.apps a = { s.apps a with
    resourceExhaustedStrategy := (t.apps a).resourceExhaustedStrategy
    latch := (t.apps a).latch
    waitingCount := (t.apps a).waitingCount
    status := (t.apps a).status }
  answered : ∀ outcome, (outcome,a) ∈ t.answered ↔ (outcome,a) ∈ s.answered
  registered : ∀ refs, (a,refs) ∈ t.registered ↔ (a,refs) ∈ s.registered

section
variable {a : Nat} {s t : State}

theorem Same.dispatch (same : Same a s t) : (t.apps a).resourceDispatch = (s.apps a).resourceDispatch := by
  rw [same.app]

theorem Unanswered.same (unanswered : Unanswered a s) (same : Same a s t)
    (latch : (t.apps a).latch = (s.apps a).latch) : Unanswered a t :=
  ⟨fun outcome => mt (same.answered outcome).mp (unanswered.answers outcome),latch.trans unanswered.latch⟩

theorem Clear.same (clear : Clear a s) (same : Same a s t) : Clear a t :=
  ⟨same.dispatch.trans clear.idle,fun refs => mt (same.registered refs).mp (clear.fresh refs)⟩

theorem Given.same (given : Given a s) (same : Same a s t) : Given a t := by
  refine ⟨?_,?_,?_⟩
  · rw [same.dispatch]
    exact given.once
  · rw [same.app]
    exact given.requested
  · rw [same.dispatch]
    exact (same.registered _).mpr given.registered

theorem Ready.same {nodes : Nodes} {refs : List ProcessorRef} (ready : Ready nodes (s.apps a) refs)
    (same : Same a s t) : Ready nodes (t.apps a) refs := by
  rw [same.app]
  exact ⟨ready.once,fun ref member => by simpa [Served,object] using ready.served ref member,ready.requested⟩

theorem Stage.same (stage : Stage a s) (same : Same a s t) (latch : (t.apps a).latch = (s.apps a).latch)
    (pc : t.pc = s.pc) : Stage a t := by
  cases stage with
  | waiting place unanswered clear =>
    exact .waiting (by rw [pc]; exact place) (unanswered.same same latch) (clear.same same)
  | placed nodes place unanswered ready fresh =>
    refine .placed nodes (pc.trans place) (unanswered.same same latch) ?_
      (fun refs => mt (same.registered refs).mp (fresh refs))
    rw [same.dispatch]
    exact ready.same same
  | stored nodes refs place unanswered ready registered =>
    exact .stored nodes refs (by rw [pc]; exact place) (unanswered.same same latch) (ready.same same)
      ((same.registered refs).mpr registered)
  | counting place unanswered given =>
    exact .counting (pc.trans place) (unanswered.same same latch) (given.same same)
  | cancelled answer clear => exact .cancelled ((same.answered _).mpr answer) (clear.same same)
  | expired place answer up clear =>
    exact .expired (by rw [pc]; exact place) ((same.answered _).mpr answer) (latch.trans up) (clear.same same)
  | dispatched answer given => exact .dispatched ((same.answered _).mpr answer) (given.same same)

theorem Stage.elsewhere (stage : Stage a s) (same : Same a s t)
    (latch : (t.apps a).latch = (s.apps a).latch) (before : s.pc.app ≠ some a)
    (after : t.pc.app = some a → t.pc = .lock a) : Stage a t := by
  cases stage with
  | waiting place unanswered clear =>
    exact .waiting (fun busy => by rw [after busy]; rfl) (unanswered.same same latch) (clear.same same)
  | placed nodes place => exact absurd (by rw [place]; rfl) before
  | stored nodes refs place => rcases place with place | place <;> exact absurd (by rw [place]; rfl) before
  | counting place => exact absurd (by rw [place]; rfl) before
  | cancelled answer clear => exact .cancelled ((same.answered _).mpr answer) (clear.same same)
  | expired place answer up clear =>
    exact .expired (fun busy => by rw [after busy]; rfl) ((same.answered _).mpr answer) (latch.trans up)
      (clear.same same)
  | dispatched answer given => exact .dispatched ((same.answered _).mpr answer) (given.same same)

end

theorem dispatcher_elsewhere {setting : Setting} {s t : State} {a : Nat} {answer : Answer}
    (other : s.pc.app ≠ some a) (stepped : dispatcherStep setting s answer = some t) :
    Same a s t ∧ t.apps a = s.apps a ∧ (t.pc.app = some a → t.pc = .lock a) := by
  have quiet {u : State} (app : u.apps a = s.apps a)
      (answered : ∀ outcome, (outcome,a) ∈ u.answered ↔ (outcome,a) ∈ s.answered)
      (registered : ∀ refs, (a,refs) ∈ u.registered ↔ (a,refs) ∈ s.registered)
      (pc : u.pc.app = some a → u.pc = .lock a) :
      Same a s u ∧ u.apps a = s.apps a ∧ (u.pc.app = some a → u.pc = .lock a) :=
    ⟨⟨by rw [app],answered,registered⟩,app,pc⟩
  have apart {b : Nat} {next : Pc} (elsewhere : b ≠ a) (on : next.app = some b ∨ next.app = none) : next.app ≠ some a := by
    intro found
    rcases on with same | free
    · exact elsewhere (Option.some.inj (same.symm.trans found))
    · cases free.symm.trans found
  have taken {b : Nat} {next thrown : Pc} (elsewhere : b ≠ a) (on : next.app = some b ∨ next.app = none)
      (off : thrown.app = some b ∨ thrown.app = none) :
      Same a s (s.take next thrown) ∧ (s.take next thrown).apps a = s.apps a ∧
        ((s.take next thrown).pc.app = some a → (s.take next thrown).pc = .lock a) := by
    unfold State.take
    split
    · exact quiet rfl (fun _ => Iff.rfl) (fun _ => Iff.rfl) (fun found => absurd found (apart elsewhere off))
    · exact quiet rfl (fun _ => Iff.rfl) (fun _ => Iff.rfl) (fun found => absurd found (apart elsewhere on))
  have onward {b : Nat} {next : Pc} (elsewhere : b ≠ a) (on : next.app = some b ∨ next.app = none) :
      Same a s (s.goto next) ∧ (s.goto next).apps a = s.apps a ∧
        ((s.goto next).pc.app = some a → (s.goto next).pc = .lock a) := by
    exact quiet rfl (fun _ => Iff.rfl) (fun _ => Iff.rfl) fun found => absurd found (apart elsewhere on)
  unfold dispatcherStep at stepped
  split at stepped
  case h_1 =>
    split at stepped <;> cases stepped
    · exact quiet rfl (fun _ => Iff.rfl) (fun _ => Iff.rfl) (fun found => absurd found other)
    · refine quiet rfl (fun _ => Iff.rfl) (fun _ => Iff.rfl) (fun found => ?_)
      cases found
      rfl
  case h_24 => cases stepped
  all_goals
    have elsewhere := other
    rw [‹s.pc = _›,Pc.app,ne_eq,Option.some.injEq] at elsewhere
  case h_6 | h_9 | h_15 | h_23 =>
    cases stepped
    exact taken elsewhere (by simp [Pc.app]) (by simp [Pc.app])
  case h_21 =>
    cases stepped
    apply quiet
    case pc =>
      dsimp only [State.goto]
      split <;> simp [Pc.app,elsewhere]
    all_goals
      simp [State.goto,State.setApp,Ne.symm elsewhere]
  case h_2 | h_3 | h_5 | h_10 | h_11 | h_18 | h_19 | h_20 =>
    repeat' split at stepped
    all_goals
      cases stepped
      first | exact onward elsewhere (.inl rfl) | exact onward elsewhere (.inr rfl)
  -- what is left changes at most the application under way, and adds to its history
  all_goals
    repeat' split at stepped
    all_goals
      cases stepped
      first
      | exact onward elsewhere (.inl rfl)
      | apply quiet
        all_goals
          simp [State.goto,State.setApp,State.answer,State.countDown,State.register,Pc.app,elsewhere,
            Ne.symm elsewhere]

theorem QueueSound.unanswered {s : State} {a : Nat} (sound : QueueSound s) (working : s.pc.working = some a)
    (pending : s.pc.pending = []) : ∀ outcome, (outcome,a) ∉ s.answered := by
  intro outcome member
  have answers := sound.answers
  rw [pending,List.append_nil] at answers
  have taken : a ∈ s.removed := answers ▸ List.mem_map_of_mem (f := Prod.snd) member
  have once := sound.once
  rw [sound.order] at once
  exact (List.nodup_append.mp once).2.2 a taken a (List.mem_of_mem_head? (sound.head a working)) rfl

private theorem QueueSound.off_of_answered {s : State} {a : Nat} {outcome : Outcome} (sound : QueueSound s)
    (answered : (outcome,a) ∈ s.answered) : ¬ (s.pc.app = some a ∧ s.pc.past = true) := by
  rintro ⟨busy,past⟩
  have free : s.pc.working = some a ∧ s.pc.pending = [] := by
    revert busy past
    cases s.pc with
    | unlock b completion => cases completion <;> simp [Pc.app,Pc.past,Pc.working,Pc.pending]
    | _ => simp [Pc.app,Pc.past,Pc.working,Pc.pending]
  exact sound.unanswered free.1 free.2 outcome answered

private theorem dispatcher_settled {setting : Setting} {s t : State} {a : Nat} {answer : Answer} {outcome : Outcome}
    (sound : QueueSound s) (busy : s.pc.app = some a) (answered : (outcome,a) ∈ s.answered)
    (stepped : dispatcherStep setting s answer = some t) :
    Same a s t ∧ ((t.apps a).latch = (s.apps a).latch ∨ s.pc.releases = true ∧ (t.apps a).latch = true) ∧
      (t.pc.releases = true → s.pc.releases = true) := by
  have settled : s.pc.working = some a → s.pc.pending ≠ [] :=
    fun working pending => sound.unanswered working pending outcome answered
  unfold dispatcherStep at stepped
  split at stepped
  case h_1 pc => simp [pc,Pc.app] at busy
  case h_24 => cases stepped
  all_goals
    rw [‹s.pc = _›,Pc.app,Option.some.injEq] at busy
    rw [‹s.pc = _›] at settled ⊢
    subst busy
  case h_6 | h_9 | h_15 | h_23 =>
    cases stepped
    unfold State.take
    split <;> exact ⟨⟨rfl,fun _ => Iff.rfl,fun _ => Iff.rfl⟩,.inl rfl,by simp [State.goto,Pc.releases]⟩
  case h_7 | h_14 =>
    cases stepped
    refine ⟨⟨?_,fun _ => Iff.rfl,fun _ => Iff.rfl⟩,.inr ⟨rfl,?_⟩,fun _ => rfl⟩
    all_goals simp [State.goto,State.setApp,State.countDown]
  case h_19 =>
    split at stepped
    case h_1 | h_5 =>
      cases stepped
      exact ⟨⟨rfl,fun _ => Iff.rfl,fun _ => Iff.rfl⟩,.inl rfl,by simp [State.goto,Pc.releases]⟩
    all_goals exact absurd rfl (settled rfl)
  case h_20 =>
    cases stepped
    exact ⟨⟨rfl,fun _ => Iff.rfl,fun _ => Iff.rfl⟩,.inl rfl,by simp [State.goto,Pc.releases]⟩
  all_goals exact absurd rfl (settled rfl)

/-- The submitter gives up in time, what is dispatched gets registered and the request is
not refused: the dispatch thread decides nothing that `a`'s submitter is not told. -/
def orderly (a : Nat) (s : State) : Act → Bool
  | .dispatcher .raises =>
    match s.pc with
    | .register b _ | .unlock b (.normal _ _) => b ≠ a
    | _ => true
  | .dispatcher _ =>
    match s.pc with
    | .strategy b _ => b ≠ a ∨ (s.apps b).resourceExhaustedStrategy ≠ some Dict.THROW_ERROR
    | _ => true
  | .leave b =>
    b ≠ a ∨ s.submitter a ≠ .leaving none ∨ ¬ (s.pc.app = some a ∧ s.pc.past = true) ∧ (.dispatched,a) ∉ s.answered
  | _ => true

section
variable {setting : Setting} {s t : State} {a : Nat} {answer : Answer}

private theorem orderly_of_gone {result : Option (List (ProcessorRef × ErServerNode))}
    (gone : s.submitter a = .ended result) (off : ¬ (s.pc.app = some a ∧ s.pc.past = true)) (act : Act) :
    orderly a s act = true := by
  cases act with
  | leave b => simp [orderly,gone]
  | dispatcher answer =>
    cases answer <;> simp only [orderly]
    case raises =>
      split
      · rename_i pc
        simpa [pc,Pc.app,Pc.past] using off
      · rename_i pc
        simpa [pc,Pc.app,Pc.past] using off
      · rfl
    all_goals
      split
      · rename_i pc
        simp only [pc,Pc.app,Pc.past,and_true,Option.some.injEq] at off
        simp [off]
      · rfl
  | _ => rfl

theorem Stage.settle (sound : QueueSound s) (stage : Stage a s) (busy : s.pc.app = some a)
    {outcome : Outcome} (answered : (outcome,a) ∈ s.answered)
    (stepped : dispatcherStep setting s answer = some t) : Stage a t := by
  obtain ⟨same,latch,releases⟩ := dispatcher_settled sound busy answered stepped
  cases stage with
  | waiting _ unanswered | placed _ _ unanswered | stored _ _ _ unanswered | counting _ unanswered =>
    exact absurd answered (unanswered.answers outcome)
  | cancelled cancelled clear => exact .cancelled ((same.answered _).mpr cancelled) (clear.same same)
  | expired pc expired up clear =>
    have off := pc busy
    refine .expired (fun _ => ?_) ((same.answered _).mpr expired) ?_ (clear.same same)
    · exact Bool.eq_false_iff.mpr fun on => by simp [releases on] at off
    · rcases latch with kept | ⟨on,-⟩
      · exact kept.trans up
      · simp [off] at on
  | dispatched dispatched given => exact .dispatched ((same.answered _).mpr dispatched) (given.same same)

theorem dispatch_ready {order : List Nat} {nodes : Nodes} {app app' : ResourceApplication} (idle : app.resourceDispatch = [])
    (done : dispatch setting order nodes app = (app',none)) : Ready nodes app' (app'.resourceDispatch.map Prod.fst) := by
  obtain ⟨leaves,places⟩ := dispatch_spec setting order nodes app
  rw [done] at leaves places
  have kept : Kept app app' := leaves.kept
  obtain ⟨refs,placed⟩ := places rfl
  have refs_eq : app'.resourceDispatch.map Prod.fst = refs := by
    rw [placed.dispatch,idle]
    rfl
  rw [refs_eq]
  refine ⟨placed.once,placed.served,fun strategy known found => ?_⟩
  rw [kept.same] at found
  rw [kept.count]
  exact placed.requested strategy known found

theorem Stage.attempt (busy : s.pc.app = some a) (uncommitted : s.pc.committed = false)
    (unanswered : Unanswered a s) (clear : Clear a s) (allowed : orderly a s (.dispatcher answer) = true)
    (stepped : dispatcherStep setting s answer = some t) : Stage a t := by
  have onward {u : State} (same : Same a s u) (latch : (u.apps a).latch = (s.apps a).latch)
      (pc : u.pc.committed = false) : Stage a u :=
    .waiting (fun _ => pc) (unanswered.same same latch) (clear.same same)
  unfold dispatcherStep at stepped
  split at stepped
  case h_1 pc => simp [pc,Pc.app] at busy
  case h_24 => cases stepped
  case h_6 pc | h_7 pc | h_9 pc | h_14 pc | h_15 pc | h_17 pc | h_18 pc | h_21 pc | h_22 pc | h_23 pc =>
    simp [pc,Pc.committed] at uncommitted
  all_goals
    rw [‹s.pc = _›,Pc.app,Option.some.injEq] at busy
    subst busy
  case h_2 | h_3 | h_5 | h_11 | h_20 =>
    cases stepped
    exact onward ⟨rfl,fun _ => Iff.rfl,fun _ => Iff.rfl⟩ rfl rfl
  case h_4 =>
    split at stepped
    · cases stepped
      exact onward ⟨rfl,fun _ => Iff.rfl,fun _ => Iff.rfl⟩ rfl rfl
    · split at stepped <;> cases stepped
      · exact .cancelled (by simp [State.goto,State.answer]) ⟨clear.idle,clear.fresh⟩
      · exact onward ⟨rfl,fun _ => Iff.rfl,fun _ => Iff.rfl⟩ rfl rfl
  case h_8 =>
    split at stepped <;> cases stepped
    · exact .expired (fun _ => rfl) (by simp [State.goto,State.answer]) unanswered.latch ⟨clear.idle,clear.fresh⟩
    · exact onward ⟨rfl,fun _ => Iff.rfl,fun _ => Iff.rfl⟩ rfl rfl
  case h_10 =>
    split at stepped <;> cases stepped <;> exact onward ⟨rfl,fun _ => Iff.rfl,fun _ => Iff.rfl⟩ rfl rfl
  case h_12 b nodes pc =>
    split at stepped
    · cases stepped
      exact onward ⟨rfl,fun _ => Iff.rfl,fun _ => Iff.rfl⟩ rfl rfl
    · rename_i enough app checked
      cases stepped
      have quiet : ∀ strategy, app = { s.apps b with resourceExhaustedStrategy := strategy } →
          Stage b ((s.setApp b app).goto (if enough then .dispatch b (nodes.getD []) else .strategy b (nodes.getD []))) := by
        rintro strategy rfl
        refine onward ⟨?_,fun _ => Iff.rfl,fun _ => Iff.rfl⟩ ?_ (by cases enough <;> rfl)
        · simp [State.goto,State.setApp]
        · simp [State.goto,State.setApp]
      rcases checkResourceEnough_keeps checked with same | ⟨-,same⟩
      · exact quiet (s.apps b).resourceExhaustedStrategy same
      · exact quiet _ same
  case h_13 b nodes pc =>
    split at stepped
    · cases stepped
      exact onward ⟨rfl,fun _ => Iff.rfl,fun _ => Iff.rfl⟩ rfl rfl
    · rename_i strategy found
      have patient : strategy ≠ Dict.THROW_ERROR := by
        rintro rfl
        simp [orderly,pc,found] at allowed
      split at stepped
      · cases stepped
        exact onward ⟨rfl,fun _ => Iff.rfl,fun _ => Iff.rfl⟩ rfl rfl
      · split at stepped
        · cases stepped
          exact onward ⟨rfl,fun _ => Iff.rfl,fun _ => Iff.rfl⟩ rfl rfl
        · cases stepped
          exact onward ⟨rfl,fun _ => Iff.rfl,fun _ => Iff.rfl⟩ rfl rfl
  case h_16 b nodes order pc =>
    have leaves := (dispatch_spec setting order nodes (s.apps b)).1
    split at stepped
    · rename_i app done
      cases stepped
      rw [done] at leaves
      have kept : Kept (s.apps b) app := leaves.kept
      have at_b : ((s.setApp b app).goto (.register b nodes)).apps b = app := by
        simp [State.goto,State.setApp]
      refine .placed nodes rfl ⟨unanswered.answers,?_⟩ ?_ clear.fresh
      · rw [at_b,kept.same]
        exact unanswered.latch
      · rw [at_b]
        exact dispatch_ready clear.idle done
    · rename_i app e done
      cases stepped
      rw [done] at leaves
      have kept : Kept (s.apps b) app := leaves.kept
      have at_b : ((s.setApp b app).goto (.unlock b .throws)).apps b = app := by
        simp [State.goto,State.setApp]
      refine .waiting (fun _ => rfl) ⟨unanswered.answers,?_⟩ ⟨?_,clear.fresh⟩
      · rw [at_b,kept.same]
        exact unanswered.latch
      · rw [at_b,leaves.threw e rfl]
        exact clear.idle
  case h_19 pc =>
    split at stepped
    case h_6 => simp [pc,Pc.committed] at uncommitted
    all_goals
      cases stepped
      exact onward ⟨rfl,fun _ => Iff.rfl,fun _ => Iff.rfl⟩ rfl rfl

theorem regroup_ready {nodes : Nodes} {app : ResourceApplication} {refs : List ProcessorRef}
    (served : ∀ ref ∈ refs, Served nodes app ref) :
    (regroup app nodes refs).2 = true ∧ (regroup app nodes refs).1.map Prod.fst = refs := by
  induction refs with
  | nil => exact ⟨rfl,rfl⟩
  | cons ref rest ih =>
    obtain ⟨p,id,object,server,known⟩ := served ref List.mem_cons_self
    obtain ⟨all,same⟩ := ih fun other member => served other (List.mem_cons_of_mem ref member)
    obtain ⟨node,there,rfl⟩ := List.mem_map.mp known
    rw [regroup,object,Option.bind_some]
    split
    · rename_i missing
      simpa [server] using List.find?_eq_none.mp missing node there
    · exact ⟨all,congrArg (ref :: ·) same⟩

theorem Stage.dispatcher (sound : QueueSound s) (stage : Stage a s)
    (allowed : orderly a s (.dispatcher answer) = true)
    (stepped : dispatcherStep setting s answer = some t) : Stage a t := by
  by_cases busy : s.pc.app = some a
  · have settled {outcome : Outcome} (answered : (outcome,a) ∈ s.answered) : Stage a t :=
      stage.settle sound busy answered stepped
    cases stage with
    | waiting pc unanswered clear => exact .attempt busy (pc busy) unanswered clear allowed stepped
    | placed nodes pc unanswered ready fresh =>
      rw [dispatcherStep.eq_def,pc] at stepped
      cases answer <;> cases stepped
      · exact .stored nodes _ (.inl rfl) ⟨unanswered.answers,unanswered.latch⟩ ready
          (by simp [State.goto,State.register])
      · simp [orderly,pc] at allowed
    | stored nodes refs pc unanswered ready registered =>
      rcases pc with pc | pc <;> rw [dispatcherStep.eq_def,pc] at stepped
      · cases answer <;> cases stepped
        · exact .stored nodes refs (.inr rfl) ⟨unanswered.answers,unanswered.latch⟩ ready registered
        · simp [orderly,pc] at allowed
      · cases answer <;> cases stepped
        obtain ⟨all,same⟩ := regroup_ready ready.served
        rw [all,if_pos rfl]
        refine .counting rfl ⟨unanswered.answers,?_⟩ ⟨?_,?_,?_⟩
        all_goals simp only [State.goto,State.setApp,Function.update_self,same]
        · exact unanswered.latch
        · exact ready.once
        · exact ready.requested
        · exact registered
    | counting pc unanswered given =>
      rw [dispatcherStep.eq_def,pc] at stepped
      cases answer <;> cases stepped
      refine .dispatched (by simp [State.goto,State.countDown,State.setApp,State.answer]) ⟨?_,?_,?_⟩
      all_goals simp only [State.goto,State.setApp,State.countDown,State.answer,Function.update_self]
      · exact given.once
      · exact given.requested
      · exact given.registered
    | cancelled answered | expired _ answered | dispatched answered => exact settled answered
  · obtain ⟨same,app,pc⟩ := dispatcher_elsewhere busy stepped
    exact stage.elsewhere same (by rw [app]) busy pc

private theorem dispatcher_enters (stepped : dispatcherStep setting s answer = some t) :
    (t.pc.app = some a ∧ t.pc.past = true → s.pc.app = some a ∧ s.pc.past = true ∨
        s.pc = .readWaiting a ∧ (s.apps a).waitingCount ≠ 0) ∧
      ((.dispatched,a) ∈ t.answered → (.dispatched,a) ∈ s.answered ∨ s.pc = .count a) := by
  have kept {u : State} (answered : u.answered = s.answered)
      (pc : u.pc.app = some a ∧ u.pc.past = true → s.pc.app = some a ∧ s.pc.past = true ∨
        s.pc = .readWaiting a ∧ (s.apps a).waitingCount ≠ 0) :
      (u.pc.app = some a ∧ u.pc.past = true → s.pc.app = some a ∧ s.pc.past = true ∨
          s.pc = .readWaiting a ∧ (s.apps a).waitingCount ≠ 0) ∧
        ((.dispatched,a) ∈ u.answered → (.dispatched,a) ∈ s.answered ∨ s.pc = .count a) :=
    ⟨pc,fun member => .inl (answered ▸ member)⟩
  have onward {u : State} {now : Pc} (pc : s.pc = now) (answered : u.answered = s.answered)
      (past : u.pc.past = true → now.past = true ∧ now.app = u.pc.app) :
      (u.pc.app = some a ∧ u.pc.past = true → s.pc.app = some a ∧ s.pc.past = true ∨
          s.pc = .readWaiting a ∧ (s.apps a).waitingCount ≠ 0) ∧
        ((.dispatched,a) ∈ u.answered → (.dispatched,a) ∈ s.answered ∨ s.pc = .count a) := by
    refine kept answered fun entered => .inl ?_
    obtain ⟨before,same⟩ := past entered.2
    rw [pc,same]
    exact ⟨entered.1,before⟩
  unfold dispatcherStep at stepped
  split at stepped
  case h_24 => cases stepped
  case h_6 | h_9 | h_15 | h_23 =>
    cases stepped
    unfold State.take
    split <;> exact kept rfl (by simp [State.goto,Pc.past])
  case h_8 pc =>
    split at stepped <;> cases stepped
    · exact ⟨by simp [State.goto,Pc.past],fun member => .inl (by simpa [State.goto,State.answer] using member)⟩
    · rename_i positive
      refine kept rfl fun entered => .inr ?_
      simp only [State.goto,Pc.app,Option.some.injEq] at entered
      rw [pc,← entered.1]
      exact ⟨rfl,positive⟩
  case h_22 pc =>
    cases stepped
    refine ⟨by simp [State.goto,State.countDown,State.setApp,Pc.past],fun member => ?_⟩
    simp only [State.goto,State.countDown,State.setApp,State.answer,List.mem_append,List.mem_singleton,
      Prod.mk.injEq,true_and] at member
    rcases member with before | rfl
    · exact .inl before
    · exact .inr pc
  case h_21 pc =>
    cases stepped
    refine kept rfl ?_
    rw [pc]
    dsimp only [State.goto]
    split <;> simp [Pc.past,Pc.app]
  case h_4 pc =>
    repeat' split at stepped
    all_goals cases stepped
    case h_2.isTrue.refl =>
      exact ⟨by simp [State.goto,Pc.past],fun member => .inl (by simpa [State.goto,State.answer] using member)⟩
    all_goals exact kept rfl (by simp [State.goto,Pc.past])
  case h_1 =>
    split at stepped <;> cases stepped
    · exact kept rfl .inl
    · exact kept rfl (by simp [State.goto,Pc.past])
  case h_12 pc =>
    split at stepped <;> cases stepped
    · exact kept rfl (by simp [State.goto,Pc.past])
    · rename_i enough app checked
      exact onward pc rfl fun _ => ⟨rfl,by cases enough <;> rfl⟩
  case h_13 pc =>
    repeat' split at stepped
    all_goals cases stepped
    case h_2.isFalse.isFalse.isTrue.refl =>
      exact ⟨by simp [State.goto,State.setApp,Pc.past],
        fun member => .inl (by simpa [State.goto,State.setApp,State.answer] using member)⟩
    case h_2.isFalse.isFalse.isFalse.refl => exact onward pc rfl fun _ => ⟨rfl,rfl⟩
    all_goals exact kept rfl (by simp [State.goto,Pc.past])
  -- the other steps go on past the check, or are not past it
  all_goals
    have pc := ‹s.pc = _›
    repeat' split at stepped
    all_goals
      cases stepped
      first
      | exact onward pc rfl fun _ => ⟨rfl,rfl⟩
      | exact onward pc rfl fun past => Bool.noConfusion past

/-- What is asked for stays what it was. -/
structure Fixed (app app' : ResourceApplication) : Prop where
  sessionId : app'.sessionId = app.sessionId
  dispatchStrategy : app'.dispatchStrategy = app.dispatchStrategy
  requested : app'.processors.length = app.processors.length

theorem Fixed.refl (app : ResourceApplication) : Fixed app app := ⟨rfl,rfl,rfl⟩

theorem Fixed.trans {app app' app'' : ResourceApplication} (first : Fixed app app') (second : Fixed app' app'') :
    Fixed app app'' :=
  ⟨second.sessionId.trans first.sessionId,second.dispatchStrategy.trans first.dispatchStrategy,
    second.requested.trans first.requested⟩

private theorem dispatcher_keeps (stepped : dispatcherStep setting s answer = some t) :
    t.submitter = s.submitter ∧
      ∀ a, Fixed (s.apps a) (t.apps a) ∧ (t.apps a).waitingCount = (s.apps a).waitingCount := by
  have untouched {u : State} (submitter : u.submitter = s.submitter) (apps : u.apps = s.apps) :
      u.submitter = s.submitter ∧
        ∀ a, Fixed (s.apps a) (u.apps a) ∧ (u.apps a).waitingCount = (s.apps a).waitingCount := by
    rw [apps]
    exact ⟨submitter,fun _ => ⟨.refl _,rfl⟩⟩
  have changed {u : State} {b : Nat} {app : ResourceApplication} (submitter : u.submitter = s.submitter)
      (apps : u.apps = Function.update s.apps b app) (fixed : Fixed (s.apps b) app)
      (count : app.waitingCount = (s.apps b).waitingCount) :
      u.submitter = s.submitter ∧
        ∀ a, Fixed (s.apps a) (u.apps a) ∧ (u.apps a).waitingCount = (s.apps a).waitingCount := by
    refine ⟨submitter,fun a => ?_⟩
    rw [apps,Function.update_apply]
    split
    · rename_i same
      rw [same]
      exact ⟨fixed,count⟩
    · exact ⟨.refl _,rfl⟩
  unfold dispatcherStep at stepped
  split at stepped
  case h_24 => cases stepped
  case h_6 | h_9 | h_15 | h_23 =>
    cases stepped
    unfold State.take
    split <;> exact untouched rfl rfl
  case h_7 | h_14 | h_21 | h_22 =>
    cases stepped
    exact changed rfl rfl ⟨rfl,rfl,rfl⟩ rfl
  case h_12 =>
    split at stepped
    · cases stepped
      exact untouched rfl rfl
    · rename_i enough app checked
      cases stepped
      rcases checkResourceEnough_keeps checked with rfl | ⟨-,rfl⟩
      · exact changed rfl rfl (.refl _) rfl
      · exact changed rfl rfl ⟨rfl,rfl,rfl⟩ rfl
  case h_16 b nodes order pc =>
    have kept := (dispatch_spec setting order nodes (s.apps b)).1.kept
    split at stepped
    all_goals
      rename_i done
      cases stepped
      rw [done] at kept
      dsimp only at kept
      exact changed rfl rfl ⟨by rw [kept.same],by rw [kept.same],kept.count⟩ (by rw [kept.same])
  case h_13 =>
    repeat' split at stepped
    all_goals cases stepped
    case h_2.isFalse.isFalse.isTrue.refl => exact changed rfl rfl ⟨rfl,rfl,rfl⟩ rfl
    all_goals exact untouched rfl rfl
  all_goals
    repeat' split at stepped
    all_goals
      cases stepped
      exact untouched rfl rfl

end

/-- `getResult` has been left, with a result or an exception. -/
def SubmitterPc.gone : SubmitterPc → Bool
  | .ended _ => true
  | _ => false

/-- How a step of anybody but the dispatch thread moves the submitter of `a`: not at all,
on its way to the latch, away from it with what there is, or out of `getResult`. -/
inductive Moves (a : Nat) (act : Act) (s t : State) : Prop
  | stays (submitter : t.submitter a = s.submitter a) (counter : (t.apps a).waitingCount = (s.apps a).waitingCount)
  | goes (submits : act = .submit a) (before : (s.submitter a).gone = false) (after : (t.submitter a).gone = false)
      (unheard : ∀ result, t.submitter a ≠ .leaving result)
      (counter : (t.apps a).waitingCount = (s.apps a).waitingCount)
  | wakes (result : Option (List (ProcessorRef × ErServerNode))) (before : s.submitter a = .waiting)
      (after : t.submitter a = .leaving result)
      (heard : ∀ list, result = some list → (s.apps a).latch = true ∧ list = (s.apps a).resourceDispatch)
      (counter : (t.apps a).waitingCount = (s.apps a).waitingCount)
  | leaves (result : Option (List (ProcessorRef × ErServerNode))) (same : act = .leave a) (before : s.submitter a = .leaving result)
      (after : t.submitter a = .ended result)
      (counter : (t.apps a).waitingCount = (s.apps a).waitingCount - 1)

theorem others_moves {setting : Setting} {s t : State} {act : Act} (a : Nat)
    (other : ∀ answer, act ≠ .dispatcher answer) (stepped : (system setting).step s act = some t) :
    (∃ count, t.apps a = { s.apps a with waitingCount := count }) ∧ Moves a act s t := by
  have idle {u : State} (apps : u.apps = s.apps) (submitter : u.submitter = s.submitter) :
      (∃ count, u.apps a = { s.apps a with waitingCount := count }) ∧ Moves a act s u :=
    ⟨⟨_,by rw [apps]⟩,.stays (by rw [submitter]) (by rw [apps])⟩
  have moved {u : State} {b : Nat} {pc : SubmitterPc} (apps : u.apps = s.apps)
      (submitter : u.submitter = Function.update s.submitter b pc)
      (submits : act = .submit b) (before : (s.submitter b).gone = false) (after : pc.gone = false) (unheard : ∀ result, pc ≠ .leaving result) :
      (∃ count, u.apps a = { s.apps a with waitingCount := count }) ∧ Moves a act s u := by
    refine ⟨⟨_,by rw [apps]⟩,?_⟩
    by_cases same : a = b
    · subst same
      have now : u.submitter a = pc := by rw [submitter,Function.update_self]
      exact .goes submits before (now ▸ after) (by rw [now]; exact unheard) (by rw [apps])
    · exact .stays (by rw [submitter,Function.update_of_ne same]) (by rw [apps])
  have woken {b : Nat} {result : Option (List (ProcessorRef × ErServerNode))} (left : endWait s b result = some t)
      (heard : ∀ list, result = some list → (s.apps b).latch = true ∧ list = (s.apps b).resourceDispatch) :
      (∃ count, t.apps a = { s.apps a with waitingCount := count }) ∧ Moves a act s t := by
    unfold endWait at left
    split at left <;> cases left
    rename_i waits
    refine ⟨⟨_,rfl⟩,?_⟩
    by_cases same : a = b
    · subst same
      exact .wakes result waits (Function.update_self ..) heard rfl
    · exact .stays (Function.update_of_ne same ..) rfl
  cases act with
  | dispatcher answer => exact absurd rfl (other answer)
  | submit b =>
    simp only [system,submitStep] at stepped
    split at stepped
    · rename_i at_start
      cases stepped
      exact moved rfl rfl rfl (by rw [at_start]; rfl) (by split <;> rfl) (by split <;> simp)
    · rename_i at_save
      split at stepped <;> cases stepped <;> exact moved rfl rfl rfl (by rw [at_save]; rfl) rfl (by simp)
    · rename_i at_put
      split at stepped <;> cases stepped
      exact moved rfl rfl rfl (by rw [at_put]; rfl) rfl (by simp)
    · cases stepped
  | await b =>
    simp only [system] at stepped
    split at stepped
    · rename_i down
      exact woken stepped fun list same => by cases same; exact ⟨down,rfl⟩
    · cases stepped
  | timeout b =>
    simp only [system] at stepped
    split at stepped
    · exact woken stepped (by simp)
    · cases stepped
  | interrupt b => exact woken stepped (by simp)
  | leave b =>
    simp only [system,leaveStep] at stepped
    split at stepped <;> cases stepped
    rename_i result leaving
    by_cases same : a = b
    · subst same
      refine ⟨⟨_,Function.update_self ..⟩,.leaves result rfl leaving (Function.update_self ..) ?_⟩
      simp [State.setApp]
    · refine ⟨⟨_,Function.update_of_ne same ..⟩,.stays (Function.update_of_ne same ..) ?_⟩
      simp [State.setApp,same]
  | kill sid status =>
    simp only [system,killStep] at stepped
    split at stepped
    · split at stepped <;> cases stepped
      exact idle rfl rfl
    · cases stepped

/-- What the submitter has been told fits the stage of its request. -/
structure Agrees (a : Nat) (s : State) : Prop where
  queue : QueueSound s
  stage : Stage a s
  counter : (s.apps a).waitingCount = if (s.submitter a).gone then 0 else 1
  result : ∀ list, s.submitter a = .leaving (some list) ∨ s.submitter a = .ended (some list) →
    (s.apps a).latch = true ∧ list = (s.apps a).resourceDispatch
  gaveUp : s.submitter a = .ended none →
    ¬ (s.pc.app = some a ∧ s.pc.past = true) ∧ (.dispatched,a) ∉ s.answered

namespace Agrees
variable {setting : Setting} {a : Nat} {s t : State}

theorem start (started : (system setting).start s) : Agrees a s := by
  have queue := QueueSound.start setting started
  obtain ⟨fresh,-,pc,submitter,-,answered,-,registered⟩ := started
  obtain ⟨idle,latch,counter,-⟩ := fresh a
  refine ⟨queue,.waiting ?_ ⟨?_,latch⟩ ⟨idle,?_⟩,?_,?_,?_⟩
  · simp [pc,Pc.app]
  · simp [answered]
  · simp [registered]
  · simp [counter,submitter,SubmitterPc.gone]
  · simp [submitter]
  · simp [submitter]

theorem answered (agrees : Agrees a s) (latch : (s.apps a).latch = true) :
    (.cancelled,a) ∈ s.answered ∧ Clear a s ∨ (.dispatched,a) ∈ s.answered ∧ Given a s := by
  cases agrees.stage with
  | waiting _ unanswered | placed _ _ unanswered | stored _ _ _ unanswered | counting _ unanswered =>
    simp [unanswered.latch] at latch
  | cancelled answer clear => exact .inl ⟨answer,clear⟩
  | expired _ _ up => simp [up] at latch
  | dispatched answer given => exact .inr ⟨answer,given⟩

theorem dispatcher {answer : Answer} (agrees : Agrees a s) (allowed : orderly a s (.dispatcher answer) = true)
    (stepped : dispatcherStep setting s answer = some t) : Agrees a t := by
  obtain ⟨submitter,keeps⟩ := dispatcher_keeps stepped
  obtain ⟨enters,counts⟩ := dispatcher_enters (a := a) stepped
  refine ⟨agrees.queue.dispatcher setting stepped,agrees.stage.dispatcher agrees.queue allowed stepped,?_,?_,?_⟩
  · rw [(keeps a).2,submitter]
    exact agrees.counter
  · intro list told
    rw [submitter] at told
    obtain ⟨latch,list_eq⟩ := agrees.result list told
    by_cases busy : s.pc.app = some a
    · obtain ⟨outcome,member⟩ : ∃ outcome, (outcome,a) ∈ s.answered := by
        rcases agrees.answered latch with ⟨member,-⟩ | ⟨member,-⟩ <;> exact ⟨_,member⟩
      obtain ⟨same,down,-⟩ := dispatcher_settled agrees.queue busy member stepped
      refine ⟨?_,list_eq.trans same.dispatch.symm⟩
      rcases down with kept | ⟨-,down⟩
      · exact kept.trans latch
      · exact down
    · obtain ⟨-,app,-⟩ := dispatcher_elsewhere busy stepped
      rw [app]
      exact ⟨latch,list_eq⟩
  · intro gone
    rw [submitter] at gone
    obtain ⟨off,undispatched⟩ := agrees.gaveUp gone
    have spent := agrees.counter
    rw [gone] at spent
    refine ⟨fun past => ?_,fun member => ?_⟩
    · rcases enters past with before | ⟨-,positive⟩
      · exact off before
      · exact positive spent
    · rcases counts member with before | pc
      · exact undispatched before
      · exact off (by rw [pc]; exact ⟨rfl,rfl⟩)

theorem others {act : Act} (agrees : Agrees a s) (other : ∀ answer, act ≠ .dispatcher answer)
    (allowed : orderly a s act = true) (stepped : (system setting).step s act = some t) : Agrees a t := by
  obtain ⟨pc,answered,registered⟩ := others_frame other stepped
  obtain ⟨⟨count,app⟩,moves⟩ := others_moves a other stepped
  have same : Same a s t := ⟨by rw [app],by rw [answered]; exact fun _ => Iff.rfl,by rw [registered]; exact fun _ => Iff.rfl⟩
  have latch : (t.apps a).latch = (s.apps a).latch := by rw [app]
  have queue := agrees.queue.step setting stepped
  have stage := agrees.stage.same same latch pc
  have heard (list : List (ProcessorRef × ErServerNode)) :
      (s.apps a).latch = true ∧ list = (s.apps a).resourceDispatch →
        (t.apps a).latch = true ∧ list = (t.apps a).resourceDispatch := by
    rw [latch,same.dispatch]
    exact id
  cases moves with
  | stays submitter counter =>
    refine ⟨queue,stage,?_,?_,?_⟩
    · rw [counter,submitter]
      exact agrees.counter
    · rw [submitter]
      exact fun list told => heard list (agrees.result list told)
    · rw [submitter,pc,answered]
      exact agrees.gaveUp
  | goes _ before after unheard counter =>
    refine ⟨queue,stage,?_,?_,?_⟩
    · rw [counter,after,agrees.counter,before]
    · rintro list (told | told)
      · exact absurd told (unheard _)
      · simp [told,SubmitterPc.gone] at after
    · intro gone
      simp [gone,SubmitterPc.gone] at after
  | wakes result before after told counter =>
    refine ⟨queue,stage,?_,?_,?_⟩
    · rw [counter,after,agrees.counter,before]
      rfl
    · rw [after]
      rintro list (same | same) <;> cases same
      exact heard list (told list rfl)
    · simp [after]
  | leaves result leave before after counter =>
    refine ⟨queue,stage,?_,?_,?_⟩
    · rw [counter,after,agrees.counter,before]
      rfl
    · rw [after]
      rintro list (same | same) <;> cases same
      exact heard list (agrees.result list (.inl before))
    · rw [after]
      rintro ⟨⟩
      subst leave
      rw [pc,answered]
      simpa [orderly,before,imp_iff_not_or] using allowed

theorem step {act : Act} (agrees : Agrees a s) (allowed : orderly a s act = true)
    (stepped : (system setting).step s act = some t) : Agrees a t := by
  cases act with
  | dispatcher answer => exact agrees.dispatcher allowed stepped
  | _ => exact agrees.others (by simp) allowed stepped

theorem run {labels : List Act} (agrees : Agrees a s)
    (run : ((system setting).restrict (orderly a)).Run s labels t) : Agrees a t :=
  run.invariant (P := Agrees a) (fun _ _ _ agrees stepped =>
    have ⟨allowed,stepped⟩ := (System.restrict_step_iff ..).mp stepped
    agrees.step allowed stepped) agrees

theorem settled {act : Act} {outcome : Outcome} (agrees : Agrees a s) (answered : (outcome,a) ∈ s.answered)
    (stepped : (system setting).step s act = some t) : (outcome,a) ∈ t.answered := by
  cases act with
  | dispatcher answer =>
    have same : Same a s t := by
      by_cases busy : s.pc.app = some a
      · exact (dispatcher_settled agrees.queue busy answered stepped).1
      · exact (dispatcher_elsewhere busy stepped).1
    exact (same.answered outcome).mpr answered
  | _ => exact (others_frame (by simp) stepped).2.1 ▸ answered

private theorem fresh_of_cancelled (agrees : Agrees a s) (cancelled : (.cancelled,a) ∈ s.answered) :
    ∀ refs, (a,refs) ∉ s.registered := by
  cases agrees.stage with
  | waiting _ unanswered | placed _ _ unanswered | stored _ _ _ unanswered | counting _ unanswered =>
    exact absurd cancelled (unanswered.answers _)
  | cancelled _ clear | expired _ _ _ clear => exact clear.fresh
  | dispatched answer given =>
    have same := List.inj_on_of_nodup_map agrees.queue.answered_once cancelled answer rfl
    simp at same

private theorem gone_stays {act : Act} {result : Option (List (ProcessorRef × ErServerNode))}
    (gone : s.submitter a = .ended result) (stepped : (system setting).step s act = some t) :
    t.submitter a = .ended result := by
  cases act with
  | dispatcher answer => rw [(dispatcher_keeps stepped).1,gone]
  | _ =>
    cases (others_moves a (by simp) stepped).2 with
    | stays submitter => exact submitter.trans gone
    | goes _ before => simp [gone,SubmitterPc.gone] at before
    | wakes _ before => simp [gone] at before
    | leaves _ _ before => simp [gone] at before

private theorem fresh_of_given_up (agrees : Agrees a s) (gone : s.submitter a = .ended none) :
    ∀ refs, (a,refs) ∉ s.registered := by
  obtain ⟨off,undispatched⟩ := agrees.gaveUp gone
  cases agrees.stage with
  | waiting _ _ clear | cancelled _ clear | expired _ _ _ clear => exact clear.fresh
  | placed _ pc | counting pc => exact absurd (by rw [pc]; exact ⟨rfl,rfl⟩) off
  | stored _ _ pc => rcases pc with pc | pc <;> exact absurd (by rw [pc]; exact ⟨rfl,rfl⟩) off
  | dispatched answer => exact absurd answer undispatched

end Agrees

theorem dispatcher_registers {setting : Setting} {s t : State} {answer : Answer}
    (stepped : dispatcherStep setting s answer = some t) :
    t.db = s.db ∧ t.registered = s.registered ∨
      ∃ b nodes, s.pc = .register b nodes ∧ t.db = (s.register b).db ∧ t.apps = s.apps ∧
        t.registered = s.registered ++ [(b,(s.apps b).resourceDispatch.map Prod.fst)] := by
  unfold dispatcherStep at stepped
  split at stepped
  case h_24 => cases stepped
  case h_17 b nodes pc =>
    cases stepped
    exact .inr ⟨b,nodes,pc,rfl,rfl,rfl⟩
  case h_6 | h_9 | h_15 | h_23 =>
    cases stepped
    unfold State.take
    split <;> exact .inl ⟨rfl,rfl⟩
  all_goals
    repeat' split at stepped
    all_goals
      cases stepped
      exact .inl ⟨rfl,rfl⟩

def Rows (s : State) : Prop :=
  ∀ a, s.submitter a = .put ∨ (s.submitter a).queued = true → (s.db (s.apps a).sessionId).isSome = true

theorem step_fixed {setting : Setting} {s t : State} {act : Act}
    (stepped : (system setting).step s act = some t) (a : Nat) : Fixed (s.apps a) (t.apps a) := by
  cases act with
  | dispatcher answer => exact ((dispatcher_keeps stepped).2 a).1
  | _ =>
    obtain ⟨count,app⟩ := (others_moves a (by simp) stepped).1
    rw [app]
    exact ⟨rfl,rfl,rfl⟩

theorem step_row {setting : Setting} {s t : State} {act : Act}
    (stepped : (system setting).step s act = some t) {sid : String} {row : SessionRow} (found : s.db sid = some row) :
    ∃ row', t.db sid = some row' ∧ (row.status ≠ .WAITING_RESOURCE → row'.status ≠ .WAITING_RESOURCE) := by
  have kept {u : State} (db : u.db = s.db) :
      ∃ row', u.db sid = some row' ∧ (row.status ≠ .WAITING_RESOURCE → row'.status ≠ .WAITING_RESOURCE) :=
    ⟨row,db ▸ found,id⟩
  have stored {u : State} {other : String} {new : SessionRow} (db : u.db = Function.update s.db other (some new))
      (status : sid = other → new.status ≠ .WAITING_RESOURCE) :
      ∃ row', u.db sid = some row' ∧ (row.status ≠ .WAITING_RESOURCE → row'.status ≠ .WAITING_RESOURCE) := by
    rw [db,Function.update_apply]
    split
    · rename_i same
      exact ⟨new,rfl,fun _ => status same⟩
    · exact ⟨row,found,id⟩
  cases act with
  | dispatcher answer =>
    rcases dispatcher_registers stepped with ⟨db,-⟩ | ⟨b,nodes,-,db,-⟩
    · exact kept db
    · rw [State.register] at db
      dsimp only at db
      cases other : s.db (s.apps b).sessionId with
      | none =>
        rw [other,Option.map_none,← other,Function.update_eq_self] at db
        exact kept db
      | some old =>
        rw [other,Option.map_some] at db
        exact stored db fun _ => by simp
  | submit b =>
    simp only [system,submitStep] at stepped
    split at stepped
    · cases stepped
      exact kept rfl
    · split at stepped <;> cases stepped
      · exact kept rfl
      · rename_i missing
        refine stored rfl fun same => ?_
        rw [← same,found] at missing
        simp at missing
    · split at stepped <;> cases stepped
      exact kept rfl
    · cases stepped
  | await b | timeout b =>
    simp only [system,endWait] at stepped
    split at stepped
    · split at stepped <;> cases stepped
      exact kept rfl
    · cases stepped
  | interrupt b =>
    simp only [system,endWait] at stepped
    split at stepped <;> cases stepped
    exact kept rfl
  | leave b =>
    simp only [system,leaveStep] at stepped
    split at stepped <;> cases stepped
    exact kept rfl
  | kill other status =>
    simp only [system,killStep] at stepped
    split at stepped
    · split at stepped <;> cases stepped
      rename_i kills
      refine stored rfl fun _ => ?_
      rcases kills with rfl | rfl | rfl <;> simp
    · cases stepped

private theorem step_rows {setting : Setting} {s t : State} {act : Act}
    (stepped : (system setting).step s act = some t) (sid : String) (row : (s.db sid).isSome = true) :
    (t.db sid).isSome = true := by
  obtain ⟨old,found⟩ := Option.isSome_iff_exists.mp row
  obtain ⟨new,stored,-⟩ := step_row stepped found
  rw [stored]
  rfl

private theorem step_comes {setting : Setting} {s t : State} {act : Act} {a : Nat}
    (stepped : (system setting).step s act = some t)
    (there : t.submitter a = .put ∨ (t.submitter a).queued = true) :
    (s.submitter a = .put ∨ (s.submitter a).queued = true) ∨ (t.db (s.apps a).sessionId).isSome = true := by
  by_cases other : ∀ answer, act ≠ .dispatcher answer
  · cases (others_moves a other stepped).2 with
    | stays submitter => exact .inl (submitter ▸ there)
    | wakes _ before | leaves _ _ before => exact .inl (.inr (by rw [before]; rfl))
    | goes submits =>
      subst submits
      simp only [system,submitStep] at stepped
      split at stepped
      · cases stepped
        simp only [Function.update_self] at there
        split at there
        · simp [SubmitterPc.queued] at there
        · rename_i known
          exact .inr (by simpa [Option.isSome_iff_ne_none] using known)
      · split at stepped <;> cases stepped
        · simp [SubmitterPc.queued] at there
        · exact .inr (by simp)
      · rename_i at_put
        exact .inl (.inl at_put)
      · cases stepped
  · obtain ⟨answer,rfl⟩ := not_forall_not.mp other
    rw [(dispatcher_keeps stepped).1] at there
    exact .inl there

theorem Rows.step {setting : Setting} {s t : State} {act : Act} (rows : Rows s)
    (stepped : (system setting).step s act = some t) : Rows t := by
  intro a there
  rw [(step_fixed stepped a).sessionId]
  exact (step_comes stepped there).elim (fun before => step_rows stepped _ (rows a before)) id

private theorem registered_stored {setting : Setting} {s₀ s : State} {labels : List Act}
    (started : (system setting).start s₀) (run : (system setting).Run s₀ labels s) {a : Nat}
    {refs : List ProcessorRef} (registered : (a,refs) ∈ s.registered) :
    ∃ before u after, (system setting).Run s₀ before u ∧ (system setting).Run u after s ∧
      u.db (s₀.apps a).sessionId = some ⟨.NEW,refs.filterMap (u.apps a).object⟩ := by
  suffices (∃ labels, (system setting).Run s₀ labels s) ∧ QueueSound s ∧ Rows s ∧
      (∀ a, Fixed (s₀.apps a) (s.apps a)) ∧
      ∀ a refs, (a,refs) ∈ s.registered → ∃ before u after, (system setting).Run s₀ before u ∧
        (system setting).Run u after s ∧
        u.db (s₀.apps a).sessionId = some ⟨.NEW,refs.filterMap (u.apps a).object⟩ from
    this.2.2.2.2 a refs registered
  refine run.invariant (P := fun s => (∃ labels, (system setting).Run s₀ labels s) ∧ QueueSound s ∧ Rows s ∧
    (∀ a, Fixed (s₀.apps a) (s.apps a)) ∧ ∀ a refs, (a,refs) ∈ s.registered → ∃ before u after,
      (system setting).Run s₀ before u ∧ (system setting).Run u after s ∧
      u.db (s₀.apps a).sessionId = some ⟨.NEW,refs.filterMap (u.apps a).object⟩) ?_ ?_
  · rintro s act t ⟨⟨labels,ran⟩,queue,rows,fixed,stored⟩ stepped
    have arrived := ran.trans (.single stepped)
    have kept {a : Nat} {refs : List ProcessorRef} (member : (a,refs) ∈ s.registered) :
        ∃ before u after, (system setting).Run s₀ before u ∧ (system setting).Run u after t ∧
          u.db (s₀.apps a).sessionId = some ⟨.NEW,refs.filterMap (u.apps a).object⟩ := by
      obtain ⟨before,u,after,first,last,row⟩ := stored a refs member
      exact ⟨before,u,after ++ [act],first,last.trans (.single stepped),row⟩
    refine ⟨⟨_,arrived⟩,queue.step setting stepped,rows.step stepped,
      fun a => (fixed a).trans (step_fixed stepped a),fun a refs member => ?_⟩
    by_cases other : ∀ answer, act ≠ .dispatcher answer
    · exact kept ((others_frame other stepped).2.2 ▸ member)
    · obtain ⟨answer,rfl⟩ := not_forall_not.mp other
      rcases dispatcher_registers stepped with ⟨-,same⟩ | ⟨b,nodes,pc,db,apps,grown⟩
      · exact kept (same ▸ member)
      · rw [grown] at member
        rcases List.mem_append.mp member with before | now
        · exact kept before
        · cases List.mem_singleton.mp now
          have head := queue.head a (by rw [pc]; rfl)
          have submitted : a ∈ s.submitted := by
            rw [queue.order]
            exact List.mem_append_right _ (List.mem_of_mem_head? head)
          obtain ⟨row,found⟩ := Option.isSome_iff_exists.mp (rows a (.inr (queue.queued a submitted)))
          refine ⟨_,t,[],arrived,System.run_nil _ _,?_⟩
          rw [db,apps,← (fixed a).sessionId]
          simp [State.register,found]
  · refine ⟨⟨[],System.run_nil _ _⟩,.start setting started,?_,fun a => .refl _,?_⟩
    · intro a there
      simp [started.2.2.2.1,SubmitterPc.queued] at there
    · intro a refs member
      simp [started.2.2.2.2.2.2.2] at member

/-- Nothing is registered for `a`, now or later. -/
def NeverRegistered (setting : Setting) (a : Nat) (s : State) : Prop :=
  ∀ labels t, (system setting).Run s labels t → ∀ refs, (a,refs) ∉ t.registered

/-- `list` has every processor that was placed once, the requested ones if the strategy
places these, and the session was stored as NEW with just these. -/
structure Dispatched (setting : Setting) (a : Nat) (s₀ s : State) (list : List (ProcessorRef × ErServerNode)) :
    Prop where
  once : (list.map Prod.fst).Nodup
  requested : ∀ strategy ∈ placing, (s₀.apps a).dispatchStrategy = some strategy →
    (list.map Prod.fst).Perm (firstRequested (s₀.apps a).processors.length)
  registered : (a,list.map Prod.fst) ∈ s.registered
  stored : ∃ before u after, (system setting).Run s₀ before u ∧ (system setting).Run u after s ∧
    u.db (s₀.apps a).sessionId = some ⟨.NEW,(list.map Prod.fst).filterMap (u.apps a).object⟩

/-- Submitter and dispatcher agree: what `getResult` gives has been registered, but for the
empty list of a request whose session was no longer waiting, and what it gives up is not
registered. -/
theorem outcome_agreed (setting : Setting) {a : Nat} {s₀ s : State} {labels : List Act}
    (started : (system setting).start s₀) (run : ((system setting).restrict (orderly a)).Run s₀ labels s) :
    (∀ list, s.submitter a = .ended (some list) →
      Dispatched setting a s₀ s list ∨
        (.cancelled,a) ∈ s.answered ∧ list = [] ∧ NeverRegistered setting a s) ∧
      (s.submitter a = .ended none → NeverRegistered setting a s) := by
  have agrees : Agrees a s := (Agrees.start started).run run
  refine ⟨fun list gone => ?_,fun gone labels t later => ?_⟩
  · obtain ⟨latch,rfl⟩ := agrees.result list (.inr gone)
    rcases agrees.answered latch with ⟨cancelled,clear⟩ | ⟨-,given⟩
    · refine .inr ⟨cancelled,clear.idle,fun labels t later => ?_⟩
      have still : Agrees a t ∧ (∃ result, t.submitter a = .ended result) ∧ (.cancelled,a) ∈ t.answered := by
        refine later.invariant (P := fun t => Agrees a t ∧ (∃ result, t.submitter a = .ended result) ∧
          (.cancelled,a) ∈ t.answered) ?_ ⟨agrees,⟨_,gone⟩,cancelled⟩
        rintro u act v ⟨agrees,⟨result,gone⟩,cancelled⟩ stepped
        have off := agrees.queue.off_of_answered cancelled
        exact ⟨agrees.step (orderly_of_gone gone off act) stepped,⟨result,Agrees.gone_stays gone stepped⟩,
          agrees.settled cancelled stepped⟩
      exact still.1.fresh_of_cancelled still.2.2
    · have fixed : Fixed (s₀.apps a) (s.apps a) :=
        run.unrestricted.invariant (P := fun s => Fixed (s₀.apps a) (s.apps a))
          (fun _ _ _ fixed stepped => fixed.trans (step_fixed stepped a)) (.refl _)
      refine .inl ⟨given.once,?_,given.registered,registered_stored started run.unrestricted given.registered⟩
      rw [← fixed.dispatchStrategy,← fixed.requested]
      exact given.requested
  · have still : Agrees a t ∧ t.submitter a = .ended none := by
      refine later.invariant (P := fun t => Agrees a t ∧ t.submitter a = .ended none) ?_ ⟨agrees,gone⟩
      rintro u act v ⟨agrees,gone⟩ stepped
      exact ⟨agrees.step (orderly_of_gone gone (agrees.gaveUp gone).1 act) stepped,
        Agrees.gone_stays gone stepped⟩
    exact still.1.fresh_of_given_up still.2

def SubmitterPc.handed : SubmitterPc → List (ProcessorRef × ErServerNode)
  | .ended (some list) => list
  | _ => []

/-- An application that gets its processor. -/
theorem outcome_agreed_served : ∃ s list, s.submitter 0 = .ended (some list) ∧
    Dispatched plainSetting 0 (.fresh fun _ => oneProcessor "session" 3) s list := by
  have ran : (((system plainSetting).restrict (orderly 0)).exec (.fresh fun _ => oneProcessor "session" 3)
      (submits 0 ++ passes [fourCores 0] ++ [.dispatcher (.shuffled []),.dispatcher .ok,.dispatcher .ok,
        .dispatcher .ok,.dispatcher .ok,.await 0,.leave 0])).any
      (fun s => decide (s.submitter 0 = .ended (some (s.submitter 0).handed) ∧
        (s.submitter 0).handed ≠ [])) = true := by decide +kernel
  obtain ⟨s,run,found⟩ := (Option.any_eq_true _ _).mp ran
  obtain ⟨gone,some_left⟩ := of_decide_eq_true found
  have agreed := outcome_agreed plainSetting (a := 0)
    (State.fresh_start plainSetting fun _ => ⟨rfl,rfl,rfl,rfl⟩) run
  rcases agreed.1 _ gone with dispatched | ⟨-,none_left,-⟩
  · exact ⟨s,_,gone,dispatched⟩
  · exact absurd none_left some_left

/-- An application whose session is killed while it waits: `getResult` returns, with no
processor for the one that was asked for and nothing registered. -/
theorem outcome_of_killed : ∃ s, (system plainSetting).Reachable s ∧ s.submitter 0 = .ended (some []) ∧
    (s.apps 0).processors.length = 1 ∧ s.registered = [] := by
  have ran : ((system plainSetting).exec (.fresh fun _ => oneProcessor "session" 3)
      (submits 0 ++ [.kill "session" .KILLED,.dispatcher .ok,.dispatcher .ok,.dispatcher .ok,.dispatcher .ok,
        .dispatcher .ok,.await 0,.leave 0])).any
      (fun s => decide (s.submitter 0 = .ended (some [])) && decide ((s.apps 0).processors.length = 1) &&
        decide (s.registered = [])) = true := by decide +kernel
  obtain ⟨s,run,found⟩ := (Option.any_eq_true _ _).mp ran
  simp only [Bool.and_eq_true,decide_eq_true_eq] at found
  exact ⟨s,⟨_,_,State.fresh_start plainSetting fun _ => ⟨rfl,rfl,rfl,rfl⟩,run⟩,found.1.1,found.1.2,found.2⟩

end Eggroll.Dispatcher
