import Eggroll.SessionCreation

/-! Whole requests for a session: what finds a session waits for it, what finds none creates
it or waits for the request that does, and changes of its status leave the creation alone. -/
namespace Eggroll.Cluster.SessionCreation
open Library
open Program hiding call

section
variable {info : MetaInfo} {sessionId : String} {requests : ℕ → Request} {id : ℕ}
variable {s t : State} {A : State → Prop}

private theorem harmless_does {α : Type} {p : Change α} {Q : α → Prop} (safe : Safe p Q) (stable : Stable sessionId id A)
    (kept : ∀ s t, Same s t → A s → A t) (idle : ∀ s, A s → Idle id s) (holds : A s) :
    Does info sessionId requests id p (fun a t => A t ∧ Q a) A s := by
  have each (op : Op) (is_harmless : harmless op = true) (s : State) (env : Env) (t : State)
      (answer : Except Failure (Ans op)) (inv : Inv info sessionId requests s) (here : A s)
      (served : service requests id s op env = some (t,answer)) :
      Inv info sessionId requests t ∧ (contract info sessionId requests id).guarantee s t ∧ A t := by
    obtain ⟨inv',guaranteed,same⟩ := harmless_step is_harmless inv (idle s here) (service_cases served).2
    exact ⟨inv',guaranteed,kept s t same here⟩
  have relied (s t : State) (moved : (contract info sessionId requests id).rely s t) (here : A s) : A t :=
    stable s t moved.1 moved.2 here
  refine (Program.Makes.sat safe relied each holds).mono fun result t _ ends => ?_
  cases result with
  | ok a => exact ⟨ends.1,ends.2 a rfl⟩
  | error e => exact ends.1

theorem Idle.same (same : Same s t) (idle : Idle id s) : Idle id t := by
  obtain ⟨creations,-,started⟩ := same
  intro creation member mine
  rw [started]
  exact idle creation (creations ▸ member) mine

/-- There is a session, and the request is not in the middle of its creation. -/
structure There (id : ℕ) (s : State) : Prop where
  idle : Idle id s
  some_creation : s.creations ≠ []

theorem There.stable : Stable sessionId id (There id) := by
  intro s t moved same there
  refine ⟨Idle.stable s t moved same there.idle,fun none => there.some_creation ?_⟩
  exact List.subset_nil.mp (none ▸ moved.creations)

theorem There.same (same : Same s t) (there : There id s) : There id t :=
  ⟨there.idle.same same,fun none => there.some_creation (same.1.symm.trans none)⟩

theorem There.of_session {found : ErSessionMeta} (idle : Idle id s) (is : IsSession s found) : There id s := by
  obtain ⟨creation,member,-⟩ := is
  exact ⟨idle,List.ne_nil_of_mem member⟩

def Found (id : ℕ) (found : Option ErSessionMeta) (s : State) : Prop :=
  There id s ∧ ∃ erSessionMeta, found = some erSessionMeta ∧ IsSession s erSessionMeta

theorem Found.stable (found : Option ErSessionMeta) : Stable sessionId id (Found id found) := by
  rintro s t moved same ⟨there,erSessionMeta,is,session⟩
  exact ⟨There.stable s t moved same there,erSessionMeta,is,session.keeps moved⟩

private theorem there_does (withProcessor withOption withResource : Bool) (inv : Inv info sessionId requests s)
    (there : There id s) :
    Does info sessionId requests id (getSession sessionId withProcessor withOption withResource) (Found id) (Idle id) s := by
  have read : Does info sessionId requests id (getSession sessionId withProcessor withOption withResource)
      (fun found t => There id t ∧ Seen sessionId requests id True (s.looked id) found t) (Idle id) s :=
    getSession_does withProcessor withOption withResource There.stable (fun _ _ there => ⟨there.idle,there.some_creation⟩)
      (fun _ there => there.idle) (fun _ there _ => there.some_creation) Idle.stable inv there rfl
  refine read.mono (fun found t _ here => ?_) fun _ idle => idle
  obtain ⟨there,seen⟩ := here
  cases found with
  | none => exact absurd trivial (seen.unknown rfl)
  | some erSessionMeta => exact ⟨there,erSessionMeta,rfl,seen.session erSessionMeta rfl⟩

private theorem meanwhile_does {α : Type} {p : Change α} {Q : α → Prop} (safe : Safe p Q) (there : There id s) :
    Does info sessionId requests id p (fun _ => There id) (Idle id) s :=
  (harmless_does safe There.stable (fun _ _ => There.same) (fun _ there => there.idle) there).mono
    (fun _ _ _ here => here.1) fun _ there => there.idle

private theorem killIf_does {α : Type} {context : Context} {data : ErSessionMeta} {f : Unit → Change α} {B : α → State → Prop}
    (started : Bool) (inv : Inv info sessionId requests s) (there : There id s)
    (follows : ∀ t, Inv info sessionId requests t → There id t → Does info sessionId requests id (f ()) B (Idle id) t) :
    Does info sessionId requests id
      (if !started then do
        let done ← killUnstarted info context data
        f done
      else f ()) B (Idle id) s := by
  cases started with
  | true => exact follows s inv there
  | false => exact (meanwhile_does (killUnstarted_safe data) there).bind inv Idle.stable fun _ => follows

private theorem busyWait_does (looks : ℕ) (inv : Inv info sessionId requests s) (there : There id s) :
    Does info sessionId requests id (busyWait sessionId looks) (Found id) (Idle id) s := by
  induction looks generalizing s with
  | zero => exact there_does false false false inv there
  | succ looks ih =>
    refine (there_does false false false inv there).bind inv Idle.stable fun cur t inv here => ?_
    split
    · exact .pure (Found.stable cur) here
    · exact ih inv here.1

private theorem getSessionBusyWaiting_does {data : ErSessionMeta} (is : data.id = sessionId)
    (inv : Inv info sessionId requests s) (there : There id s) :
    Does info sessionId requests id (getSessionBusyWaiting data) (Found id) (Idle id) s := by
  subst is
  have polls : Safe (call .polls) fun _ => True := call_safe rfl
  refine (meanwhile_does polls there).bind inv Idle.stable fun looks t inv there => ?_
  refine (busyWait_does looks inv there).bind inv Idle.stable fun cur t inv here => ?_
  obtain ⟨there,erSessionMeta,rfl,-⟩ := here
  exact there_does true true false inv there

end

section
variable {info : MetaInfo} {sessionId : String} {requests : ℕ → Request} {id : ℕ}
variable {s t : State} {A : State → Prop} {context : Context} {data : ErSessionMeta}

theorem locked_does {handler : StateHandler ErSessionMeta} (unused : Unused context)
    (prepared : handler.prepare context data "" "NEW" = pure (context,data))
    (handled : Does info sessionId requests id (handler.handle context data "" "NEW")
      (fun result t => result.1 = context ∧ Answered id result.2 t) (Idle id) s)
    (inv : Inv info sessionId requests s) :
    Does info sessionId requests id (AbstractStateMachine.locked handler context data "" "NEW" false)
      (fun result => Answered id result.2) (Idle id) s := by
  have given (result : Context × ErSessionMeta) : Stable sessionId id
      fun t => result.1 = context ∧ Answered id result.2 t := Stable.and (.const _) (Answered.stable _)
  rw [AbstractStateMachine.locked,prepared,pure_bind,if_neg (by simp [unused.unbroken])]
  have section_ : Does info sessionId requests id
      (AbstractStateMachine.transactionHandle handler context data "" "NEW" false)
      (fun result t => result.1 = context ∧ Answered id result.2 t) (Idle id) s :=
    handled.bind inv Idle.stable fun result t _ here => .pure (given result) here
  refine section_.bind inv Idle.stable fun result t inv here => ?_
  rw [AbstractStateMachine.submitPost,here.1,unused.closed,Bool.and_false,if_neg (by simp)]
  exact .pure (Answered.stable _) here.2

private theorem repeated_locked_does (is : data.id = sessionId) (unused : Unused context)
    (inv : Inv info sessionId requests s) (there : There id s) :
    Does info sessionId requests id
      (AbstractStateMachine.locked (sessionRepeatedCreateHandler info) context data "" "NEW" false)
      (fun result => Answered id result.2) (Idle id) s := by
  subst is
  refine locked_does unused rfl ?_ inv
  have polls : Safe (call .polls) fun _ => True := call_safe rfl
  refine (meanwhile_does polls there).bind inv Idle.stable fun looks t inv there => ?_
  refine (meanwhile_does (checkSessionRpcReady_safe data.id looks) there).bind inv Idle.stable fun ready t inv there => ?_
  refine killIf_does ready inv there fun t inv there => ?_
  have read : Does info data.id requests id (getSession data.id true true true >>= notNull)
      (fun found t => Answered id found t) (Idle id) t := by
    refine (there_does true true true inv there).bind inv Idle.stable fun found t inv here => ?_
    obtain ⟨there,erSessionMeta,rfl,session⟩ := here
    exact .pure (Answered.stable _) (.of_session there.idle session)
  refine read.bind inv Idle.stable fun found t inv here => ?_
  exact .pure (Stable.and (.const _) (Answered.stable _)) ⟨rfl,here⟩

private theorem ignore_locked_does (unused : Unused context) (new : data.status = "NEW")
    (inv : Inv info sessionId requests s) (there : There id s) :
    Does info sessionId requests id (AbstractStateMachine.locked sessionIgnoreHandler context data "" "NEW" false)
      (fun result => Answered id result.2) (Idle id) s := by
  refine locked_does unused rfl ?_ inv
  exact .pure (Stable.and (.const _) (Answered.stable _)) ⟨rfl,there.idle,there.some_creation,fun old => absurd new old⟩

theorem guarded_does (handler : StateHandler ErSessionMeta) (stable : Stable sessionId id A)
    (kept : ∀ s lock, A s → A (s.setLock sessionId lock)) (idle : ∀ t, A t → Idle id t)
    (locked : ∀ t, Inv info sessionId requests t → A t → Holder sessionId id t →
      Does info sessionId requests id (AbstractStateMachine.locked handler context data "" "NEW" false)
        (fun result => Answered id result.2) (Idle id) t)
    (inv : Inv info sessionId requests s) (holds : A s) :
    Does info sessionId requests id
      (tryFinally (do
          call (.lock .session sessionId)
          AbstractStateMachine.locked handler context data "" "NEW" false)
        (call (.unLock .session sessionId)))
      (fun result => Answered id result.2) (Idle id) s := by
  refine Does.tryFinally ?_ inv (fun result => Answered.stable result.2) Idle.stable (fun result t inv here => ?_)
    fun t inv here => ?_
  · refine (lock_does stable kept Idle.stable idle holds).bind inv Idle.stable fun _ t inv here => ?_
    exact locked t inv here.1 here.2
  · exact (unlock_does (Answered.stable result.2) (fun s lock here => here.setLock lock) (fun t here => here.idle)
      here).mono (fun _ _ _ here => here) fun _ here => here.idle
  · exact unlock_does Idle.stable (fun _ _ idle => idle) (fun _ idle => idle) here

private theorem new_change_does (mine : requests id = .getOrCreate data) (is : data.id = sessionId) (unused : Unused context)
    (inv : Inv info sessionId requests s) (apart : Apart id s) (looked : s.looked id = [none]) :
    Does info sessionId requests id ((sessionStateMachine info).changeStatus context data "" "NEW" false)
      (fun result => Answered id result.2) (Idle id) s := by
  have read : Does info sessionId requests id (getSession data.id true false false)
      (fun found t => Apart id t ∧ Seen sessionId requests id False [none] found t) (Idle id) s := by
    rw [is]
    exact getSession_does true false false Apart.stable (fun _ _ apart => apart) (fun _ apart => apart.idle)
      (fun _ _ no => no.elim) Idle.stable inv apart looked
  have line : Does info sessionId requests id ((sessionStateMachine info).buildStateChangeLine context data "" "NEW")
      (fun built t => Apart id t ∧ ∃ found, Seen sessionId requests id False [none] found t ∧
        built = sessionLine context data "" "NEW" found) (Idle id) s := by
    refine read.bind inv Idle.stable fun found t _ here => .pure ?_ ⟨here.1,found,here.2,rfl⟩
    refine Apart.stable.and fun s t moved same holds => ?_
    obtain ⟨found,seen,is⟩ := holds
    exact ⟨found,Seen.stable found s t moved same seen,is⟩
  refine line.bind inv Idle.stable fun built t inv here => ?_
  obtain ⟨apart,found,seen,rfl⟩ := here
  have unused' : Unused (sessionLine context data "" "NEW" found).1.1 :=
    ⟨unused.unbroken,unused.closed,unused.processorInDb,unused.processorType⟩
  have key : data.id = sessionId := is
  subst key
  cases found with
  | none =>
    -- `_NEW`
    refine guarded_does (sessionCreateHandler info) Apart.stable (fun _ _ apart => apart)
      (fun _ apart => apart.idle) (fun t inv apart holder => ?_) inv apart
    exact create_locked_does mine rfl unused' inv apart holder
  | some found =>
    have there : There id t := .of_session apart.idle (seen.session found rfl)
    have kept (s : State) (lock : ReentrantLock ℕ) (there : There id s) : There id (s.setLock data.id lock) :=
      ⟨there.idle,there.some_creation⟩
    rcases seen.status found rfl with new | late
    · -- `NEW_NEW`
      have handler : sessionHandler info (sessionRepeatedCreateHandler info) (found.status ++ "_" ++ "NEW") =
          sessionRepeatedCreateHandler info := by
        rw [new]
        rfl
      refine guarded_does (sessionHandler info _ (found.status ++ "_" ++ "NEW")) There.stable kept
        (fun _ there => there.idle) (fun t inv there _ => ?_) inv there
      rw [handler]
      exact repeated_locked_does rfl unused' inv there
    · -- the session is over or active, and the line is ignored
      have handler : sessionHandler info (sessionRepeatedCreateHandler info) (found.status ++ "_" ++ "NEW") =
          sessionIgnoreHandler := by
        simp only [later,List.mem_cons,List.not_mem_nil,or_false] at late
        rcases late with same | same | same | same
        all_goals
          rw [same]
          rfl
      have carries : data.status = "NEW" := by
        rcases seen.line rfl with carries | new
        · simpa [Request.carriesNew,mine] using carries
        · rw [new found rfl] at late
          simp [later] at late
      refine guarded_does (sessionHandler info _ (found.status ++ "_" ++ "NEW")) There.stable kept
        (fun _ there => there.idle) (fun t inv there _ => ?_) inv there
      rw [handler]
      exact ignore_locked_does unused' carries inv there

private theorem getOrCreate_does (mine : requests id = .getOrCreate data) (is : data.id = sessionId) (fresh : Fresh id s)
    (inv : Inv info sessionId requests s) :
    Does info sessionId requests id (getOrCreateSession info {} data)
      (fun result t => Idle id t ∧ ∃ found, result = some found ∧ IsSession t found) (Idle id) s := by
  have key : data.id = sessionId := is
  subst key
  have stable (result : Option ErSessionMeta) : Stable data.id id
      fun t => Idle id t ∧ ∃ found, result = some found ∧ IsSession t found := by
    rintro s t moved same ⟨idle,found,is,session⟩
    exact ⟨Idle.stable s t moved same idle,found,is,session.keeps moved⟩
  have returned {p : Change (Option ErSessionMeta)} {t : State} (does : Does info data.id requests id p (Found id) (Idle id) t) :
      Does info data.id requests id p (fun result t => Idle id t ∧ ∃ found, result = some found ∧ IsSession t found)
        (Idle id) t := does.mono (fun _ _ _ here => ⟨here.1.idle,here.2⟩) fun _ idle => idle
  have read : Does info data.id requests id (getSession data.id true true false)
      (fun found t => Apart id t ∧ Seen data.id requests id False [] found t) (Idle id) s :=
    getSession_does true true false Apart.stable (fun _ _ apart => apart) (fun _ apart => apart.idle)
      (fun _ _ no => no.elim) Idle.stable inv fresh.creator fresh.looked
  refine read.bind inv Idle.stable fun found t inv here => ?_
  obtain ⟨apart,seen⟩ := here
  cases found with
  | some found =>
    have session : IsSession t found := seen.session found rfl
    have there : There id t := .of_session apart.idle session
    dsimp only
    split
    · exact .raise Idle.stable apart.idle
    split
    · exact .pure (stable _) ⟨apart.idle,found,rfl,session⟩
    · exact returned (getSessionBusyWaiting_does rfl inv there)
  | none =>
    have unused : Unused {} := ⟨rfl,rfl,rfl,rfl⟩
    refine (new_change_does mine rfl unused inv apart seen.looked).bind inv Idle.stable fun changed t inv answered => ?_
    have there : There id t := ⟨answered.idle,answered.some_creation⟩
    split
    case isTrue old => exact .pure (stable _) ⟨answered.idle,changed.2,rfl,answered.session old⟩
    case isFalse =>
      have await : Safe (call .await) fun _ => True := call_safe rfl
      refine (meanwhile_does await there).bind inv Idle.stable fun actived t inv there => ?_
      refine killIf_does actived inv there fun t inv there => ?_
      exact returned (there_does true true true inv there)

theorem change_does {pre des : String} (ends : des ∈ later) (fresh : Fresh id s) (inv : Inv info sessionId requests s) :
    Does info sessionId requests id (Request.program info (.change context data pre des)) (fun _ => Idle id) (Idle id) s := by
  have apart : Apart id s := fresh.creator
  have changed : Does info sessionId requests id
      ((sessionStateMachine info).changeStatus context data pre des false) (fun _ => Idle id) (Idle id) s :=
    (harmless_does (change_safe _ ends data) Idle.stable (fun _ _ => Idle.same) (fun _ idle => idle) apart.idle).mono
      (fun _ _ _ here => here.1) fun _ idle => idle
  exact changed.bind inv Idle.stable fun _ t _ idle => .pure Idle.stable idle

end

section
variable {info : MetaInfo} {sessionId : String} {requests : ℕ → Request}

def Outcome (id : ℕ) (request : Request) (result : Except Failure (Option ErSessionMeta)) (s : State) : Prop :=
  Idle id s ∧ ∀ data, request = .getOrCreate data → ∀ answer, result = .ok answer →
    ∃ found, answer = some found ∧ IsSession s found

theorem request_does {id : ℕ} {s : State} (concerns : (requests id).concerns sessionId = true)
    (inv : Inv info sessionId requests s) (fresh : Fresh id s) :
    ((requests id).program info).Sat (contract info sessionId requests id) (service requests id)
      (Outcome id (requests id)) s := by
  cases mine : requests id with
  | getOrCreate data =>
    rw [mine] at concerns
    refine Program.Sat.mono (getOrCreate_does mine (of_decide_eq_true concerns) fresh inv) fun result t _ ends => ?_
    cases result with
    | ok answer =>
      refine ⟨ends.1,fun _ _ given is => ?_⟩
      cases is
      exact ends.2
    | error e => exact ⟨ends,fun _ _ given => nofun⟩
  | change context data pre des =>
    rw [mine] at concerns
    refine Program.Sat.mono (change_does (of_decide_eq_true concerns).2 fresh inv) fun result t _ ends => ⟨?_,nofun⟩
    cases result with
    | ok answer => exact ends
    | error e => exact ends

theorem Without.inv {tables : Tables} (without : Without sessionId tables) :
    Inv info sessionId requests (.init tables) where
  ids := without.ids
  resources := without.resources
  listed := by rw [State.init,without.processors]
  absent _ := ⟨without.session,rfl,rfl⟩
  created _ member := absurd member List.not_mem_nil

theorem run_kept {p : Run} (reached : (system info sessionId requests (service requests)).Reachable p) :
    Pool.Kept (Inv info sessionId requests) (contract info sessionId requests) Fresh (service requests) Outcome p := by
  apply Pool.Kept.restricted fit _ _ reached
  · rintro s ⟨tables,without,rfl⟩
    exact ⟨without.inv,fun id => ⟨rfl,fun creation member => absurd member List.not_mem_nil⟩⟩
  · rintro id request s ⟨_,admitted⟩ inv fresh
    obtain ⟨rfl,concerns⟩ := of_decide_eq_true admitted
    exact request_does concerns inv fresh

/-- In every run in which the requests are orderly the session is created once. -/
theorem session_created_once {p : Run} (reached : (system info sessionId requests (service requests)).Reachable p) :
    CreatedOnce info sessionId requests p := by
  have kept := run_kept reached
  have inv := kept.invariant
  refine ⟨?_,fun none => (inv.absent none).2,fun creation member => ?_,fun id data result ended => ?_⟩
  · cases creations : p.shared.creations with
    | nil => exact Nat.zero_le 1
    | cons creation rest =>
      obtain ⟨only,-⟩ := inv.created creation (by rw [creations]; exact List.mem_cons_self)
      rw [creations] at only
      rw [only]
      exact Nat.le_refl 1
  · obtain ⟨-,sessionMeta,eggs,progress⟩ := inv.created creation member
    refine ⟨progress.id,sessionMeta,eggs,progress.made,progress.added,?_,fun done => ?_⟩
    · rcases progress.held with ⟨-,session,sent,-⟩ | ⟨unsent,-⟩
      · rw [sent]
        exact Nat.le_refl 1
      · rw [unsent]
        exact Nat.zero_le 1
    · rcases progress.held with finished | ⟨unsent,holder⟩
      · exact finished
      · rcases done with released | ⟨result,ended⟩
        · exact absurd holder released
        · exact absurd unsent ((kept.ended fit ended).1 creation member rfl)
  · exact (kept.ended fit ended).2 data rfl result rfl

end

def named (status : String) : ErSessionMeta := ⟨"s","mine",status,"","",none,none,[],[]⟩

/-- Somebody asks for the session as `NEW`, and the others with this status. -/
def asking (status : String) : ℕ → Request
  | 0 => .getOrCreate (named "NEW")
  | _ => .getOrCreate (named status)

def steps (awake : Bool) (id n : ℕ) : List (Pool.Act Request Env) :=
  List.replicate n (.step id { nodes := [⟨1,"host",4670⟩], awake := awake })

def noTables : Tables := ⟨[],[],[],0,[],[]⟩

private theorem noTables_without : Without "s" noTables := ⟨rfl,rfl,nofun,nofun⟩

/-- The session of the row that both get, with the one processor of its one node. -/
def mine : ErSessionMeta :=
  { named "NEW" with
    totalProcCount := some 1
    activeProcCount := some 0
    processors := [{ newProcessor {} (named "NEW") ⟨1,"host",4670⟩ with id := 0 }] }

/-- Both look twice and find none, and the second finds the session under the lock. -/
theorem session_created_once_racing : ∃ p, CreatedOnce ⟨false,1⟩ "s" (asking "NEW") p ∧
    p.Ended 0 (asking "NEW" 0) (.ok (some mine)) ∧ p.Ended 1 (asking "NEW" 1) (.ok (some mine)) := by
  have ran : ((system ⟨false,1⟩ "s" (asking "NEW") (service (asking "NEW"))).exec ⟨.init noTables,fun _ => none⟩
      ([.invoke 0 (asking "NEW" 0),.invoke 1 (asking "NEW" 1)] ++ steps true 0 2 ++ steps true 1 2 ++
        steps true 0 16 ++ steps true 1 13)).any (fun p => decide
      (p.result 0 = some (asking "NEW" 0,.ok (some mine)) ∧ p.result 1 = some (asking "NEW" 1,.ok (some mine)))) = true := by
    decide +kernel
  obtain ⟨p,run,found⟩ := (Option.any_eq_true _ _).mp ran
  obtain ⟨first,second⟩ := of_decide_eq_true found
  refine ⟨p,session_created_once ⟨_,_,⟨⟨noTables,noTables_without,rfl⟩,fun _ => rfl⟩,run⟩,?_,?_⟩
  · exact Pool.ended_of_result first
  · exact Pool.ended_of_result second

/-- A request without a status has found no session when another creates it and, since its
processors do not start, kills it. The line `KILLED_NEW` is ignored, and the request is
answered with its own data. -/
theorem ignored_not_session : ∃ p, (system ⟨false,1⟩ "s" (asking "") State.serve).Reachable p ∧
    ¬ CreatedOnce ⟨false,1⟩ "s" (asking "") p := by
  have ran : ((system ⟨false,1⟩ "s" (asking "") State.serve).exec ⟨.init noTables,fun _ => none⟩
      ([.invoke 0 (asking "" 0),.invoke 1 (asking "" 1)] ++ steps false 1 1 ++ steps false 0 32 ++
        steps false 1 5)).any (fun p => decide (p.result 1 = some (asking "" 1,.ok (some (named ""))) ∧
      ∀ creation ∈ p.shared.creations, creation.row.totalProcCount = some 1)) = true := by decide +kernel
  obtain ⟨p,run,found⟩ := (Option.any_eq_true _ _).mp ran
  obtain ⟨answered,counted⟩ := of_decide_eq_true found
  refine ⟨p,⟨_,_,⟨⟨noTables,noTables_without,rfl⟩,fun _ => rfl⟩,run⟩,fun once => ?_⟩
  obtain ⟨erSessionMeta,is,creation,member,-,-,-,total,-⟩ := once.returns 1 _ _ (Pool.ended_of_result answered)
  cases is
  rw [counted creation member] at total
  cases total

end Eggroll.Cluster.SessionCreation
