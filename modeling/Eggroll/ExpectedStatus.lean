import Eggroll.SessionCalls
import Eggroll.SessionRequests

/-! Changes of the status of a session with an expected previous status (`SessionKillHandler`,
`SessionStopHandler`, `SessionWaitingKillHandler`) among each other: every call is one step,
and the lock of the session is exclusive. -/
namespace Eggroll.Cluster.ExpectedStatus
open Library
open Program hiding call

structure Request where
  context : Context
  sessionMeta : ErSessionMeta
  preStateParam : String
  desStateParam : String
deriving Repr, DecidableEq

def waiting : String := "WAITING_RESOURCE"

def lines : List (String × String) :=
  [("NEW","KILLED"),("NEW","ERROR"),("ACTIVE","KILLED"),("ACTIVE","ERROR"),("ACTIVE","CLOSED"),
    (waiting,"KILLED"),(waiting,"ERROR"),(waiting,"CLOSED")]

namespace Request

def program (info : MetaInfo) (request : Request) : Change (Context × ErSessionMeta) :=
  (sessionStateMachine info).changeStatus request.context request.sessionMeta request.preStateParam
    request.desStateParam false

def concerns (sessionId : String) (request : Request) : Bool :=
  request.sessionMeta.id = sessionId ∧ request.context.isBreak = false ∧
    (request.preStateParam,request.desStateParam) ∈ lines

end Request

/-- An update of the row of the session: the stored status just before it and just after it. -/
structure Effect where
  request : ℕ
  stored : Option String
  status : Option String
deriving Repr, DecidableEq

/-- The tables and the locks of the session ids. The other fields are history: the statuses
that the session has had, of each request how many of them there were at its first call and
those from there to its last call, the status that was stored when it was given the lock, and
which requests have updated the session, have written at all and have met a call that failed. -/
structure State where
  tables : Tables
  locks : String → ReentrantLock ℕ
  statuses : List (Option String)
  since : ℕ → Option ℕ
  met : ℕ → List (Option String)
  granted : ℕ → Option (Option String)
  effects : List Effect
  wrote : List ℕ
  failed : List ℕ

def writes : Op → Bool
  | .saveSession _ | .updateSession _ _ | .saveOption _ | .saveProcessor _ | .updateProcessor _ _
  | .updateNodeResource _ | .saveResource _ | .updateResource _ _ | .submit _ => true
  | _ => false

/-- The stored status of the session. -/
def stored (sessionId : String) (tables : Tables) : Option String := (tables.session sessionId).map SessionMain.status

namespace State

def init (sessionId : String) (tables : Tables) : State :=
  ⟨tables,fun _ => .new,[stored sessionId tables],fun _ => none,fun _ => [],fun _ => none,[],[],[]⟩

def setLock (s : State) (key : String) (lock : ReentrantLock ℕ) : State :=
  { s with locks := Function.update s.locks key lock }

/-- The history of a call that is answered, `tables` being those behind it. -/
def note (s : State) (sessionId : String) (id : ℕ) (tables : Tables) (op : Op) : State :=
  let after := { s with tables := tables, wrote := if writes op then s.wrote ++ [id] else s.wrote }
  match op with
  | .updateSession key _ =>
    if key = sessionId then { after with
      effects := s.effects ++ [⟨id,stored sessionId s.tables,stored sessionId tables⟩]
      statuses := s.statuses ++ [stored sessionId tables] }
    else after
  | _ => after

def act (sessionId : String) (id : ℕ) : Service State Op Ans Failure Env := fun s op env =>
  match op with
  | .lock .session key => ((s.locks key).lock id).map fun lock =>
    ({ s.setLock key lock with granted := Function.update s.granted id (some (stored sessionId s.tables)) },.ok ())
  | .unLock .session key =>
    match (s.locks key).unlock id with
    | some lock => some (s.setLock key lock,.ok ())
    | none => some (s,.error (.runtime ""))
  | op =>
    match s.tables.serve op env with
    | none => none
    | some (tables,.ok a) => some (s.note sessionId id tables op,.ok a)
    | some (tables,.error e) => some ({ s with tables := tables, failed := s.failed ++ [id] },.error e)

/-- What the request has met so far, `t` being the state behind its call. -/
def meet (s : State) (id : ℕ) (t : State) : State :=
  let since := (s.since id).getD (s.statuses.length - 1)
  { t with since := Function.update s.since id (some since), met := Function.update s.met id (t.statuses.drop since) }

/-- The calls of one request. -/
def serve (sessionId : String) (id : ℕ) : Service State Op Ans Failure Env := fun s op env =>
  (act sessionId id s op env).map fun served => (s.meet id served.1,served.2)

end State

abbrev Run := Pool State Request Op Ans Failure (Context × ErSessionMeta)

/-- The requests are given by their numbers; each may come in at any time. -/
def system (info : MetaInfo) (sessionId : String) (requests : ℕ → Request) : System Run (Pool.Act Request Env) :=
  (Pool.system (fun s => ∃ tables, (tables.session sessionId).isSome ∧ s = .init sessionId tables)
    (Request.program info) (State.serve sessionId)).restrict fun _ act => match act with
      | .invoke id request => request = requests id ∧ request.concerns sessionId
      | .step _ _ => true

/-- A change takes effect only where the expected status is stored, and it sets the new one;
what returns has taken effect; and what is rejected, if none of its calls has failed, has
written nothing and has met another status. -/
structure CompareAndSet (requests : ℕ → Request) (p : Run) : Prop where
  effects : ∀ effect ∈ p.shared.effects, effect.stored = some (requests effect.request).preStateParam ∧
    effect.status = some (requests effect.request).desStateParam
  returns : ∀ id request result, p.Ended id request (.ok result) → ∃ effect ∈ p.shared.effects, effect.request = id
  rejected : ∀ id request e, p.Ended id request (.error e) → id ∉ p.shared.failed →
    id ∉ p.shared.wrote ∧ ∃ status ∈ p.shared.met id, status ≠ some request.preStateParam

/-- The request waits for resources, and its expected status is stored as it is given the lock. -/
def InOrder (request : Request) (granted : Option String) : Prop :=
  request.preStateParam = waiting ∧ granted = some request.preStateParam

variable {info : MetaInfo} {sessionId : String} {requests : ℕ → Request} {id : ℕ} {s t : State} {op : Op} {env : Env}

def calm : Op → Bool
  | .lock .session _ | .unLock .session _ | .saveSession _ | .updateSession _ _ => false
  | _ => true

private theorem calm_of_quiet (still : quiet op = true) : calm op = true := by
  cases op with
  | lock cache key => cases cache with
    | session => cases still
    | _ => rfl
  | unLock cache key => cases cache with
    | session => cases still
    | _ => rfl
  | saveSession | updateSession => cases still
  | _ => rfl

def State.plainly (s : State) (sessionId : String) (id : ℕ) (op : Op) (env : Env) :
    Option (State × Except Failure (Ans op)) :=
  match s.tables.serve op env with
  | none => none
  | some (tables,.ok a) => some (s.note sessionId id tables op,.ok a)
  | some (tables,.error e) => some ({ s with tables := tables, failed := s.failed ++ [id] },.error e)

private theorem act_calm (still : calm op = true) : State.act sessionId id s op env = s.plainly sessionId id op env := by
  cases op with
  | lock cache key => cases cache with
    | session => cases still
    | _ => rfl
  | unLock cache key => cases cache with
    | session => cases still
    | _ => rfl
  | _ => rfl

private theorem plainly_cases {answer : Except Failure (Ans op)} (plain : State.act sessionId id s op env = s.plainly sessionId id op env)
    (served : State.serve sessionId id s op env = some (t,answer)) :
    (∃ e, answer = .error e ∧ t = s.meet id { s with failed := s.failed ++ [id] }) ∨
      answer = .ok (s.tables.answer env op) ∧ t = s.meet id (s.note sessionId id (s.tables.write op) op) := by
  obtain ⟨⟨u,given⟩,acted,is⟩ := Option.map_eq_some_iff.mp served
  cases is
  rw [plain,State.plainly] at acted
  cases answered : s.tables.serve op env with
  | none => simp [answered] at acted
  | some pair =>
    obtain ⟨tables,answer⟩ := pair
    rw [answered] at acted
    rcases served_cases answered with ⟨rfl,e,rfl⟩ | ⟨rfl,rfl⟩
    · cases acted
      exact .inl ⟨e,rfl,rfl⟩
    · cases acted
      exact .inr ⟨rfl,rfl⟩

private theorem write_calm (still : calm op = true) (tables : Tables) : (tables.write op).sessions = tables.sessions := by
  cases op with
  | saveSession | updateSession => cases still
  | _ => rfl

/-- What every call but an update of the session leaves as it was, except for its own request. -/
structure Frame (sessionId : String) (id : ℕ) (s t : State) : Prop where
  owner : ∀ other, other ≠ id → ((t.locks sessionId).owner = some other ↔ (s.locks sessionId).owner = some other)
  session : t.tables.session sessionId = s.tables.session sessionId
  statuses : t.statuses = s.statuses
  effects : t.effects = s.effects
  failed : s.failed ⊆ t.failed
  granted : ∀ other, other ≠ id → t.granted other = s.granted other
  others : ∀ other, other ≠ id → t.met other = s.met other ∧ (other ∈ t.wrote ↔ other ∈ s.wrote)
  met : t.met id ⊆ t.statuses

/-- What a call that leaves the session alone comes to. -/
structure Calmly (sessionId : String) (id : ℕ) (op : Op) (s t : State) : Prop where
  frame : Frame sessionId id s t
  locks : t.locks = s.locks
  granted : t.granted = s.granted
  wrote : writes op = false → t.wrote = s.wrote

private theorem meet_other {other : ℕ} (elsewhere : other ≠ id) : (s.meet id t).met other = s.met other :=
  Function.update_of_ne elsewhere _ _

theorem meet_own : (s.meet id t).met id ⊆ t.statuses := by
  have own : (s.meet id t).met id = t.statuses.drop ((s.since id).getD (s.statuses.length - 1)) :=
    Function.update_self _ _ _
  rw [own]
  exact List.drop_subset _ _

private theorem failed_frame : Frame sessionId id s (s.meet id { s with failed := s.failed ++ [id] }) :=
  ⟨fun _ _ => .rfl,rfl,rfl,rfl,List.subset_append_left _ _,fun _ _ => rfl,fun _ elsewhere => ⟨meet_other elsewhere,.rfl⟩,
    meet_own⟩

private theorem calm_served {answer : Except Failure (Ans op)} (still : calm op = true)
    (served : State.serve sessionId id s op env = some (t,answer)) : Calmly sessionId id op s t ∧
      ((∃ e, answer = .error e ∧ id ∈ t.failed) ∨ answer = .ok (s.tables.answer env op)) := by
  rcases plainly_cases (act_calm still) served with ⟨e,rfl,rfl⟩ | ⟨rfl,rfl⟩
  · exact ⟨⟨failed_frame,rfl,rfl,fun _ => rfl⟩,.inl ⟨e,rfl,List.mem_append_right _ (List.mem_singleton_self _)⟩⟩
  · have noted : s.note sessionId id (s.tables.write op) op =
        { s with
          tables := s.tables.write op
          wrote := if writes op then s.wrote ++ [id] else s.wrote } := by
      cases op with
      | updateSession => cases still
      | _ => rfl
    rw [noted]
    refine ⟨⟨⟨fun _ _ => .rfl,?_,rfl,rfl,List.Subset.refl _,fun _ _ => rfl,fun other elsewhere =>
      ⟨meet_other elsewhere,?_⟩,meet_own⟩,rfl,rfl,fun reads => ?_⟩,.inr rfl⟩
    · exact congrArg (List.find? _) (write_calm still s.tables)
    · simp only [State.meet]
      split
      · exact List.mem_append.trans (or_iff_left fun own => elsewhere (List.mem_singleton.mp own))
      · exact .rfl
    · simp only [State.meet,reads,Bool.false_eq_true,if_false]

structure Inv (sessionId : String) (requests : ℕ → Request) (s : State) : Prop where
  exists_ : (s.tables.session sessionId).isSome
  last : s.statuses.getLast? = some (stored sessionId s.tables)
  later : ∀ status ∈ s.statuses.tail, ∃ line ∈ lines, status = some line.2
  effects : ∀ effect ∈ s.effects, s.granted effect.request = some effect.stored ∧
    effect.status = some (requests effect.request).desStateParam

/-- While a request has the lock, nobody else changes the status. -/
structure Relies (sessionId : String) (id : ℕ) (s t : State) : Prop where
  owner : (t.locks sessionId).owner = some id ↔ (s.locks sessionId).owner = some id
  held : (s.locks sessionId).owner = some id →
    stored sessionId t.tables = stored sessionId s.tables ∧ t.statuses = s.statuses
  granted : t.granted id = s.granted id
  met : t.met id = s.met id
  wrote : id ∈ t.wrote ↔ id ∈ s.wrote
  failed : s.failed ⊆ t.failed
  effects : s.effects ⊆ t.effects

def contract (sessionId : String) (requests : ℕ → Request) (id : ℕ) : Contract State where
  invariant := Inv sessionId requests
  rely := Relies sessionId id
  guarantee s t := ∀ other, other ≠ id → Relies sessionId other s t
  refl _ := ⟨.rfl,fun _ => ⟨rfl,rfl⟩,rfl,rfl,.rfl,List.Subset.refl _,List.Subset.refl _⟩
  trans first second :=
    ⟨second.owner.trans first.owner,fun own => ⟨(second.held (first.owner.mpr own)).1.trans (first.held own).1,
      (second.held (first.owner.mpr own)).2.trans (first.held own).2⟩,second.granted.trans first.granted,
      second.met.trans first.met,second.wrote.trans first.wrote,List.Subset.trans first.failed second.failed,
      List.Subset.trans first.effects second.effects⟩

def Fresh (id : ℕ) (s : State) : Prop := s.granted id = none ∧ id ∉ s.wrote

theorem fit (sessionId : String) (requests : ℕ → Request) :
    Pool.Fit (Inv sessionId requests) (contract sessionId requests) Fresh where
  same _ := rfl
  others other _ _ guaranteed := guaranteed _ other
  fresh relied idle := ⟨relied.granted.trans idle.1,fun wrote => idle.2 (relied.wrote.mp wrote)⟩

theorem Frame.stored (frame : Frame sessionId id s t) : stored sessionId t.tables = stored sessionId s.tables :=
  congrArg (Option.map SessionMain.status) frame.session

private theorem Frame.relies (frame : Frame sessionId id s t) {other : ℕ} (elsewhere : other ≠ id) : Relies sessionId other s t := by
  refine ⟨frame.owner other elsewhere,fun _ => ⟨frame.stored,frame.statuses⟩,frame.granted other elsewhere,
    (frame.others other elsewhere).1,(frame.others other elsewhere).2,frame.failed,?_⟩
  rw [frame.effects]
  exact List.Subset.refl _

theorem Frame.inv (frame : Frame sessionId id s t) (inv : Inv sessionId requests s)
    (own : ∀ effect ∈ s.effects, effect.request = id → t.granted id = s.granted id) : Inv sessionId requests t := by
  refine ⟨by rw [frame.session]; exact inv.exists_,?_,?_,fun effect there => ?_⟩
  · rw [frame.statuses,inv.last,frame.stored]
  · rw [frame.statuses]
    exact inv.later
  · rw [frame.effects] at there
    obtain ⟨granted,status⟩ := inv.effects effect there
    refine ⟨?_,status⟩
    by_cases mine : effect.request = id
    · rw [mine,own effect there mine,← mine]
      exact granted
    · rw [frame.granted _ mine]
      exact granted

theorem Inv.expected (inv : Inv sessionId requests s) {pre des : String} (line : (pre,des) ∈ lines)
    (is : stored sessionId s.tables = some pre) : s.statuses = [some pre] := by
  have last := inv.last
  rw [is] at last
  have later := inv.later
  cases all : s.statuses with
  | nil =>
    rw [all] at last
    cases last
  | cons first rest =>
    rw [all] at last later
    cases rest with
    | nil =>
      cases last
      rfl
    | cons second rest =>
      rw [List.getLast?_cons_cons] at last
      obtain ⟨other,there,same⟩ := later _ (List.mem_of_getLast? last)
      have apart : ∀ one ∈ lines, ∀ other ∈ lines, one.1 ≠ other.2 := by decide
      exact absurd (Option.some.inj same) (apart _ line other there)

section
variable {requests : ℕ → Request}

abbrev Leads {α : Type} (sessionId : String) (requests : ℕ → Request) (id : ℕ) (p : Change α) (A : α → State → Prop)
    (E : State → Prop) (s : State) : Prop :=
  Program.Does (contract sessionId requests id) (State.serve sessionId id) p A E s

/-- The request has the lock, which it was given when this status was stored, and has written
nothing. -/
structure Held (sessionId : String) (id : ℕ) (found : Option String) (s : State) : Prop where
  owner : (s.locks sessionId).owner = some id
  granted : s.granted id = some found
  stored : stored sessionId s.tables = found
  unwritten : id ∉ s.wrote

/-- The change has taken effect where this status was stored. -/
structure Took (sessionId : String) (requests : ℕ → Request) (id : ℕ) (found : Option String) (s : State) : Prop where
  owner : (s.locks sessionId).owner = some id
  granted : s.granted id = some found
  effect : ⟨id,found,some (requests id).desStateParam⟩ ∈ s.effects

def Failed (id : ℕ) (s : State) : Prop := id ∈ s.failed

theorem Failed.stable : (contract sessionId requests id).Stable (Failed id) := fun _ _ moved there => moved.failed there

theorem Fresh.stable : (contract sessionId requests id).Stable (Fresh id) := fun _ _ => (fit sessionId requests).fresh

theorem Held.stable (found : Option String) : (contract sessionId requests id).Stable (Held sessionId id found) :=
  fun _ _ moved held => ⟨moved.owner.mpr held.owner,moved.granted.trans held.granted,
    (moved.held held.owner).1.trans held.stored,fun wrote => held.unwritten (moved.wrote.mp wrote)⟩

theorem Took.stable (found : Option String) : (contract sessionId requests id).Stable (Took sessionId requests id found) :=
  fun _ _ moved took => ⟨moved.owner.mpr took.owner,moved.granted.trans took.granted,moved.effects took.effect⟩

theorem Calmly.fresh (calmly : Calmly sessionId id op s t) (reads : writes op = false) (fresh : Fresh id s) : Fresh id t :=
  ⟨by rw [calmly.granted]; exact fresh.1,by rw [calmly.wrote reads]; exact fresh.2⟩

theorem Calmly.held (calmly : Calmly sessionId id op s t) (reads : writes op = false) {found : Option String}
    (held : Held sessionId id found s) : Held sessionId id found t := by
  refine ⟨?_,?_,calmly.frame.stored.trans held.stored,?_⟩
  · rw [calmly.locks]
    exact held.owner
  · rw [calmly.granted]
    exact held.granted
  · rw [calmly.wrote reads]
    exact held.unwritten

private theorem Calmly.took (calmly : Calmly sessionId id op s t) {found : Option String} (took : Took sessionId requests id found s) :
    Took sessionId requests id found t := by
  refine ⟨?_,?_,?_⟩
  · rw [calmly.locks]
    exact took.owner
  · rw [calmly.granted]
    exact took.granted
  · rw [calmly.frame.effects]
    exact took.effect

theorem Calmly.kept (calmly : Calmly sessionId id op s t) (inv : Inv sessionId requests s) :
    Inv sessionId requests t ∧ (contract sessionId requests id).guarantee s t :=
  ⟨calmly.frame.inv inv fun _ _ _ => by rw [calmly.granted],fun _ elsewhere => calmly.frame.relies elsewhere⟩

theorem read_does (op : Op) {A : State → Prop} {A' : Ans op → Prop} (still : calm op = true)
    (stable : (contract sessionId requests id).Stable A) (kept : ∀ t u, Calmly sessionId id op t u → A t → A u)
    (answers : ∀ t env, Inv sessionId requests t → A t → A' (t.tables.answer env op)) (holds : A s) :
    Leads sessionId requests id (call op) (fun answer t => A t ∧ A' answer) (Failed id) s := by
  refine Does.perform stable (fun _ => stable.and (.const _)) Failed.stable holds fun t env u answer inv here served => ?_
  obtain ⟨calmly,outcome⟩ := calm_served still served
  refine ⟨(calmly.kept inv).1,(calmly.kept inv).2,?_⟩
  rcases outcome with ⟨e,rfl,failed⟩ | rfl
  · exact failed
  · exact ⟨kept t u calmly here,answers t env inv here⟩

theorem getSession_does {A : State → Prop} {R : Option SessionMain → Prop} (inv : Inv sessionId requests s)
    (stable : (contract sessionId requests id).Stable A)
    (kept : ∀ op t u, writes op = false → Calmly sessionId id op t u → A t → A u)
    (reads : ∀ t, Inv sessionId requests t → A t → R (t.tables.session sessionId)) (holds : A s) :
    Leads sessionId requests id (getSession sessionId true false false) (fun found t => A t ∧ ∃ main, R main ∧
      ∃ processors, found = main.map fun row => { row.toErSessionMeta with processors := processors }) (Failed id) s := by
  rw [getSession_eq]
  refine .bind (A := fun main t => A t ∧ R main) ?_ inv Failed.stable fun main t inv here => ?_
  · exact read_does (.getSession sessionId) rfl stable (fun t u => kept _ t u rfl) (fun t _ => reads t) holds
  cases main with
  | none => exact .pure (stable.and (.const _)) ⟨here.1,none,here.2,[],rfl⟩
  | some row =>
    have rows (sessionId' : String) (t : State) (inv : Inv sessionId requests t) (holds : A t) :
        Leads sessionId requests id (getProcessorBySession sessionId' false) (fun _ t => A t ∧ True) (Failed id) t := by
      refine .bind (A := fun _ t => A t ∧ True) ?_ inv Failed.stable fun _ u inv here => ?_
      · exact read_does (.listAllResources) rfl stable (fun t u => kept _ t u rfl) (fun _ _ _ _ => trivial) holds
      refine .bind (A := fun _ t => A t ∧ True) ?_ inv Failed.stable fun _ u inv here => ?_
      · exact read_does (.listProcessors sessionId') rfl stable (fun t u => kept _ t u rfl) (fun _ _ _ _ => trivial)
          here.1
      · exact .pure (stable.and (.const _)) here
    refine .bind (rows sessionId t inv here.1) inv Failed.stable fun processors u inv there => ?_
    exact .pure (stable.and (.const _)) ⟨there.1,some row,here.2,processors,rfl⟩

private theorem setLock_frame {lock : ReentrantLock ℕ} {granted : ℕ → Option (Option String)}
    (owner : ∀ other, other ≠ id → (lock.owner = some other ↔ (s.locks sessionId).owner = some other))
    (grants : ∀ other, other ≠ id → granted other = s.granted other) :
    Frame sessionId id s (s.meet id { s.setLock sessionId lock with granted := granted }) := by
  refine ⟨fun other elsewhere => ?_,rfl,rfl,rfl,List.Subset.refl _,grants,
    fun _ elsewhere => ⟨meet_other elsewhere,.rfl⟩,meet_own⟩
  have here : (Function.update s.locks sessionId lock) sessionId = lock := Function.update_self _ _ _
  change ((Function.update s.locks sessionId lock) sessionId).owner = some other ↔ _
  rw [here]
  exact owner other elsewhere

theorem lock_does (fresh : Fresh id s) :
    Leads sessionId requests id (call (.lock .session sessionId)) (fun _ t => ∃ found, Held sessionId id found t)
      (Failed id) s := by
  refine Does.perform Fresh.stable (fun _ => .ex Held.stable) Failed.stable fresh fun t env u answer inv fresh served => ?_
  obtain ⟨⟨v,given⟩,acted,is⟩ := Option.map_eq_some_iff.mp served
  cases is
  obtain ⟨lock,locked,is⟩ := Option.map_eq_some_iff.mp acted
  cases is
  have frame := setLock_frame (fun _ elsewhere => ReentrantLock.lock_others elsewhere locked)
    fun other elsewhere => Function.update_of_ne elsewhere (some (stored sessionId t.tables)) t.granted
  refine ⟨frame.inv inv fun effect there mine => ?_,fun _ elsewhere => frame.relies elsewhere,stored sessionId t.tables,?_⟩
  · have granted := (inv.effects effect there).1
    rw [mine,fresh.1] at granted
    cases granted
  · refine ⟨?_,Function.update_self _ _ _,rfl,fresh.2⟩
    change ((Function.update t.locks sessionId lock) sessionId).owner = some id
    rw [Function.update_self]
    exact (ReentrantLock.lock_owner locked).2

private theorem unLock_does {A B E : State → Prop} (stable : (contract sessionId requests id).Stable A)
    (stableB : (contract sessionId requests id).Stable B) (stableE : (contract sessionId requests id).Stable E)
    (gives : ∀ t u, Inv sessionId requests t → A t → Frame sessionId id t u → u.granted = t.granted → u.wrote = t.wrote →
      ((t.locks sessionId).owner = some id ∧ B u) ∨ (B u ∧ E u)) (holds : A s) :
    Leads sessionId requests id (call (.unLock .session sessionId)) (fun _ => B) E s := by
  refine Does.perform stable (fun _ => stableB) stableE holds fun t env u answer inv here served => ?_
  obtain ⟨⟨v,given⟩,acted,is⟩ := Option.map_eq_some_iff.mp served
  cases is
  simp only [State.act] at acted
  split at acted
  case h_1 lock unlocked =>
    cases acted
    have frame : Frame sessionId id t (t.meet id (t.setLock sessionId lock)) :=
      setLock_frame (fun _ elsewhere => ReentrantLock.unlock_others elsewhere unlocked) fun _ _ => rfl
    refine ⟨frame.inv inv fun _ _ _ => rfl,fun _ elsewhere => frame.relies elsewhere,?_⟩
    exact (gives t _ inv here frame rfl rfl).elim And.right And.left
  case h_2 unowned =>
    cases acted
    have frame : Frame sessionId id t (t.meet id t) :=
      ⟨fun _ _ => .rfl,rfl,rfl,rfl,List.Subset.refl _,fun _ _ => rfl,fun _ elsewhere => ⟨meet_other elsewhere,.rfl⟩,meet_own⟩
    refine ⟨frame.inv inv fun _ _ _ => rfl,fun _ elsewhere => frame.relies elsewhere,?_⟩
    rcases gives t _ inv here frame rfl rfl with ⟨own,-⟩ | both
    · have held := ReentrantLock.unlock_isSome.mpr (ReentrantLock.holdCount_pos.mpr own)
      rw [unowned] at held
      cases held
    · exact both.2

private theorem stored_update {tables : Tables} {patch : SessionPatch} {status : String}
    (there : (tables.session sessionId).isSome) (sets : patch.status = some status) :
    stored sessionId (tables.write (.updateSession sessionId patch)) = some status := by
  obtain ⟨row,found⟩ := Option.isSome_iff_exists.mp there
  rw [stored,session_update,found,Option.map_some,Option.map_some,if_pos (session_spec found).2,SessionPatch.apply,sets]
  rfl

private theorem concerns_line {request : Request} (concerns : request.concerns sessionId = true) :
    (request.preStateParam,request.desStateParam) ∈ lines := (of_decide_eq_true concerns).2.2

theorem update_does {patch : SessionPatch} {found : Option String} (concerns : (requests id).concerns sessionId = true)
    (sets : patch.status = some (requests id).desStateParam) (held : Held sessionId id found s) :
    Leads sessionId requests id (call (.updateSession sessionId patch)) (fun _ => Took sessionId requests id found)
      (Failed id) s := by
  refine Does.perform (Held.stable found) (fun _ => Took.stable found) Failed.stable held
    fun t env u answer inv held served => ?_
  rcases plainly_cases (s := t) rfl served with ⟨e,rfl,rfl⟩ | ⟨rfl,rfl⟩
  · exact ⟨failed_frame.inv inv fun _ _ _ => rfl,fun _ elsewhere => failed_frame.relies elsewhere,
      List.mem_append_right _ (List.mem_singleton_self id)⟩
  · have after := stored_update inv.exists_ sets
    have noted : t.note sessionId id (t.tables.write (.updateSession sessionId patch)) (.updateSession sessionId patch) =
        { t with
          tables := t.tables.write (.updateSession sessionId patch)
          wrote := t.wrote ++ [id]
          effects := t.effects ++ [⟨id,found,some (requests id).desStateParam⟩]
          statuses := t.statuses ++ [some (requests id).desStateParam] } := by
      rw [State.note,if_pos rfl,after,held.stored]
      rfl
    rw [noted]
    refine ⟨⟨?_,?_,?_,?_⟩,fun other elsewhere => ⟨.rfl,fun own => ?_,rfl,meet_other elsewhere,?_,List.Subset.refl _,?_⟩,
      ⟨held.owner,held.granted,List.mem_append_right _ (List.mem_singleton_self _)⟩⟩
    · obtain ⟨row,there⟩ := Option.isSome_iff_exists.mp inv.exists_
      change ((t.tables.write (.updateSession sessionId patch)).session sessionId).isSome
      rw [session_update,there]
      rfl
    · exact List.getLast?_concat.trans (congrArg some after.symm)
    · intro status there
      change status ∈ (t.statuses ++ [some (requests id).desStateParam]).tail at there
      have some_ : t.statuses ≠ [] := fun none => by
        have last := inv.last
        rw [none] at last
        cases last
      rw [List.tail_append_of_ne_nil some_] at there
      rcases List.mem_append.mp there with old | new
      · exact inv.later status old
      · exact ⟨_,concerns_line concerns,List.mem_singleton.mp new⟩
    · intro effect there
      rcases List.mem_append.mp there with old | new
      · exact inv.effects effect old
      · rw [List.mem_singleton.mp new]
        exact ⟨held.granted,rfl⟩
    · exact absurd (Option.some.inj (own.symm.trans held.owner)) elsewhere
    · exact List.mem_append.trans (or_iff_left fun mine => elsewhere (List.mem_singleton.mp mine))
    · exact List.subset_append_left _ _

private theorem took_does {α : Type} {p : Change α} {found : Option String} (makes : p.Makes (fun op => calm op = true) fun _ => True)
    (took : Took sessionId requests id found s) :
    Leads sessionId requests id p (fun _ => Took sessionId requests id found) (Took sessionId requests id found) s := by
  refine Sat.mono (makes.sat (A := Took sessionId requests id found) (Took.stable found) ?_ took) fun result t _ here => ?_
  · intro op still t env u answer inv took served
    obtain ⟨calmly,-⟩ := calm_served still served
    exact ⟨(calmly.kept inv).1,(calmly.kept inv).2,calmly.took took⟩
  · cases result with
    | ok a => exact here.1
    | error e => exact here.1

theorem locked_does {handler : StateHandler ErSessionMeta} {context : Context} {data : ErSessionMeta} {pre des : String}
    {found : Option String} {E : State → Prop} (P : ErSessionMeta → Prop)
    (stableE : (contract sessionId requests id).Stable E) (falls : ∀ t, Failed id t → E t)
    (prepare : Leads sessionId requests id (handler.prepare context data pre des)
      (fun prepared t => Held sessionId id found t ∧ prepared.1.isBreak = false ∧ P prepared.2) E s)
    (handle : ∀ context data t, Inv sessionId requests t → P data → Held sessionId id found t →
      Leads sessionId requests id (handler.handle context data pre des) (fun _ => Took sessionId requests id found) E t)
    (inv : Inv sessionId requests s) :
    Leads sessionId requests id (AbstractStateMachine.locked handler context data pre des false)
      (fun _ => Took sessionId requests id found) E s := by
  refine prepare.bind inv stableE fun prepared t inv here => ?_
  rw [if_neg (by rw [here.2.1]; exact Bool.false_ne_true)]
  refine .bind (A := fun _ => Took sessionId requests id found) ?_ inv stableE fun result t inv took => ?_
  · exact (handle _ _ t inv here.2.2 here.1).bind inv stableE fun _ t _ took => .pure (Took.stable found) took
  unfold AbstractStateMachine.submitPost
  split
  · have submitted : Leads sessionId requests id (call (.submit (handler.asynPostHandle result.1 result.2)))
        (fun _ t => Took sessionId requests id found t ∧ True) (Failed id) t :=
      read_does (.submit _) rfl (Took.stable found) (fun _ _ calmly => calmly.took) (fun _ _ _ _ => trivial) took
    exact (submitted.mono (fun _ _ _ here => here.1) fun t _ => falls t).bind inv stableE fun _ t _ took =>
      .pure (Took.stable found) took
  · exact .pure (Took.stable found) took

variable {context : Context} {data : ErSessionMeta} {found : Option String}

private theorem waiting_does (concerns : (requests id).concerns sessionId = true) (unbroken : context.isBreak = false)
    (is : data.id = sessionId) (pre : String) (inv : Inv sessionId requests s) (held : Held sessionId id found s) :
    Leads sessionId requests id
      (AbstractStateMachine.locked sessionWaitingKillHandler context data pre (requests id).desStateParam false)
      (fun _ => Took sessionId requests id found) (Failed id) s := by
  refine locked_does (fun data => data.id = sessionId) Failed.stable (fun _ failed => failed) ?_ ?_ inv
  · exact .pure ((Held.stable found).and (.const _)) ⟨held,unbroken,is⟩
  · rintro context data t inv rfl held
    refine .bind ?_ inv Failed.stable fun _ t _ took => .pure (Took.stable found) took
    exact update_does concerns rfl held

/-- The row as `prepare` finds it under the lock. -/
def IsRow (sessionId : String) (found : Option String) (main : Option SessionMain) : Prop :=
  ∃ row, main = some row ∧ row.sessionId = sessionId ∧ some row.status = found

private theorem held_row (inv : Inv sessionId requests s) (held : Held sessionId id found s) :
    IsRow sessionId found (s.tables.session sessionId) := by
  obtain ⟨row,there⟩ := Option.isSome_iff_exists.mp inv.exists_
  have status := held.stored
  rw [stored,there] at status
  exact ⟨row,there,(session_spec there).2,status⟩

private theorem endPrepare_does {pre : String} (some_ : pre ≠ "") (processorStatus des : String)
    (unbroken : context.isBreak = false) (is : data.id = sessionId) (inv : Inv sessionId requests s)
    (held : Held sessionId id found s) :
    Leads sessionId requests id ((sessionEndHandler info processorStatus).prepare context data pre des)
      (fun prepared t => Held sessionId id found t ∧ prepared.1.isBreak = false ∧ prepared.2.id = sessionId ∧
        found ≠ some pre)
      (fun t => Failed id t ∨ Held sessionId id found t ∧ found = some pre) s := by
  subst is
  have stableE : (contract data.id requests id).Stable fun t => Failed id t ∨ Held data.id id found t ∧ found = some pre :=
    Failed.stable.or ((Held.stable found).and (.const _))
  refine .bind (Does.mono (getSession_does inv (Held.stable found) ?_ (fun _ inv => held_row inv) held)
    (fun _ _ _ here => here) fun _ _ failed => .inl failed) inv stableE fun _ t inv here => ?_
  · exact fun _ _ _ reads calmly held => calmly.held reads held
  obtain ⟨held,_,⟨row,rfl,named,rfl⟩,processors,rfl⟩ := here
  simp only [Option.map_some]
  split
  · rename_i same
    exact .raise stableE (.inr ⟨held,congrArg some same.2.symm⟩)
  · rename_i other
    refine .pure ((Held.stable _).and (.const _)) ⟨held,unbroken,named,fun same => other ⟨some_,?_⟩⟩
    exact (Option.some.inj same).symm

private theorem end_handle_does {processorStatus : String} (known : processorStatus = "KILLED" ∨ processorStatus = "STOPPED")
    (concerns : (requests id).concerns sessionId = true) (pre : String) (is : data.id = sessionId)
    (inv : Inv sessionId requests s) (held : Held sessionId id found s) :
    Leads sessionId requests id
      ((sessionEndHandler info processorStatus).handle context data pre (requests id).desStateParam)
      (fun _ => Took sessionId requests id found) (fun t => Failed id t ∨ Took sessionId requests id found t) s := by
  subst is
  have stableE : (contract data.id requests id).Stable fun t => Failed id t ∨ Took data.id requests id found t :=
    Failed.stable.or (Took.stable found)
  refine .bind (A := fun _ => Took data.id requests id found) ?_ inv stableE fun _ t inv took => ?_
  · exact (update_does concerns rfl held).mono (fun _ _ _ took => took) fun _ _ => .inl
  have calmly : ∀ op, quiet op = true → calm op = true := fun op => calm_of_quiet
  have rest : (do
      let changed ← changeEach info processorStatus context data.processors
      let erSessionMeta ← getSession data.id true false false >>= notNull
      pure (changed.1,erSessionMeta) : Change (Context × ErSessionMeta)).Makes (fun op => calm op = true) fun _ => True :=
    .bind (changeEach_makes (fun _ processor => processorEnd_makes calmly _ known processor) data.processors)
      fun _ _ => .bind (found_makes calmly (fun _ => rfl) _ _ _ _) fun _ _ => .pure trivial
  exact (took_does rest took).mono (fun _ _ _ took => took) fun _ _ => .inr

/-- The change has taken effect, and a kill or a stop where another status was stored than the
expected one. -/
def Handled (sessionId : String) (requests : ℕ → Request) (id : ℕ) (s : State) : Prop :=
  ∃ found, Took sessionId requests id found s ∧
    ((requests id).preStateParam ≠ waiting → found ≠ some (requests id).preStateParam)

/-- A kill or a stop has thrown, after its effect or where the expected status is stored. -/
def Refused (sessionId : String) (requests : ℕ → Request) (id : ℕ) (s : State) : Prop :=
  (requests id).preStateParam ≠ waiting ∧
    (Handled sessionId requests id s ∨ Held sessionId id (some (requests id).preStateParam) s)

theorem Handled.stable : (contract sessionId requests id).Stable (Handled sessionId requests id) :=
  .ex fun found => (Took.stable found).and (.const _)

theorem Refused.stable : (contract sessionId requests id).Stable (Refused sessionId requests id) :=
  .and (.const _) (Handled.stable.or (Held.stable _))

private theorem end_does {processorStatus : String} (known : processorStatus = "KILLED" ∨ processorStatus = "STOPPED")
    (concerns : (requests id).concerns sessionId = true) (ends : (requests id).preStateParam ≠ waiting)
    (unbroken : context.isBreak = false) (is : data.id = sessionId) (inv : Inv sessionId requests s)
    (held : Held sessionId id found s) :
    Leads sessionId requests id
      (AbstractStateMachine.locked (sessionEndHandler info processorStatus) context data (requests id).preStateParam
        (requests id).desStateParam false)
      (fun _ => Handled sessionId requests id) (fun t => Failed id t ∨ Refused sessionId requests id t) s := by
  have named : ∀ line ∈ lines, line.1 ≠ "" := by decide
  have some_ : (requests id).preStateParam ≠ "" := named _ (concerns_line concerns)
  have prepare : Leads sessionId requests id ((sessionEndHandler info processorStatus).prepare context data
      (requests id).preStateParam (requests id).desStateParam) _ _ s :=
    endPrepare_does some_ processorStatus _ unbroken is inv held
  by_cases expected : found = some (requests id).preStateParam
  · subst expected
    refine .bind (prepare.mono (fun _ _ _ here => here) ?_) inv (Failed.stable.or Refused.stable) ?_
    · exact fun _ _ => Or.imp_right fun here => ⟨ends,.inr here.1⟩
    · exact fun _ _ _ here => absurd rfl here.2.2.2
  have taken : Leads sessionId requests id
      (AbstractStateMachine.locked (sessionEndHandler info processorStatus) context data (requests id).preStateParam
        (requests id).desStateParam false)
      (fun _ => Took sessionId requests id found) (fun t => Failed id t ∨ Took sessionId requests id found t) s := by
    refine locked_does (fun data => data.id = sessionId) (Failed.stable.or (Took.stable found)) (fun _ => .inl)
      (prepare.mono ?_ ?_) ?_ inv
    · exact fun _ _ _ here => ⟨here.1,here.2.1,here.2.2.1⟩
    · exact fun _ _ => Or.imp_right fun here => absurd here.2 expected
    · exact fun _ _ _ inv is held => end_handle_does known concerns _ is inv held
  refine taken.mono (fun _ _ _ took => ⟨found,took,fun _ => expected⟩) fun _ _ => Or.imp_right fun took => ⟨ends,.inl ?_⟩
  exact ⟨found,took,fun _ => expected⟩

private theorem handler_cases (info : MetaInfo) {request : Request} (concerns : request.concerns sessionId = true) :
    (request.preStateParam = waiting ∧ sessionHandler info (sessionRepeatedCreateHandler info)
        (request.preStateParam ++ "_" ++ request.desStateParam) = sessionWaitingKillHandler) ∨
      (request.preStateParam ≠ waiting ∧ ∃ processorStatus, (processorStatus = "KILLED" ∨ processorStatus = "STOPPED") ∧
        sessionHandler info (sessionRepeatedCreateHandler info) (request.preStateParam ++ "_" ++ request.desStateParam) =
          sessionEndHandler info processorStatus) := by
  suffices each : ∀ line ∈ lines, (line.1 = waiting ∧ sessionHandler info (sessionRepeatedCreateHandler info)
        (line.1 ++ "_" ++ line.2) = sessionWaitingKillHandler) ∨
      (line.1 ≠ waiting ∧ ∃ processorStatus, (processorStatus = "KILLED" ∨ processorStatus = "STOPPED") ∧
        sessionHandler info (sessionRepeatedCreateHandler info) (line.1 ++ "_" ++ line.2) =
          sessionEndHandler info processorStatus) from each _ (concerns_line concerns)
  simp only [lines,List.forall_mem_cons]
  refine ⟨.inr ?_,.inr ?_,.inr ?_,.inr ?_,.inr ?_,.inl ?_,.inl ?_,.inl ?_,nofun⟩
  · exact ⟨by decide,"KILLED",.inl rfl,rfl⟩
  · exact ⟨by decide,"KILLED",.inl rfl,rfl⟩
  · exact ⟨by decide,"KILLED",.inl rfl,rfl⟩
  · exact ⟨by decide,"KILLED",.inl rfl,rfl⟩
  · exact ⟨by decide,"STOPPED",.inr rfl,rfl⟩
  · exact ⟨trivial,rfl⟩
  · exact ⟨trivial,rfl⟩
  · exact ⟨trivial,rfl⟩

def Returned (requests : ℕ → Request) (id : ℕ) (s : State) : Prop :=
  ∃ found, s.granted id = some found ∧ ⟨id,found,some (requests id).desStateParam⟩ ∈ s.effects ∧
    ((requests id).preStateParam ≠ waiting → found ≠ some (requests id).preStateParam)

/-- What has come of a request that has thrown, if none of its calls has failed: it is a kill or a
stop, and it has been rejected where the stored status was the expected one, or it has thrown
after its effect where it was another one. -/
def Thrown (requests : ℕ → Request) (id : ℕ) (s : State) : Prop :=
  (requests id).preStateParam ≠ waiting ∧ ∃ found, s.granted id = some found ∧
    ((found ≠ some (requests id).preStateParam ∧ ⟨id,found,some (requests id).desStateParam⟩ ∈ s.effects) ∨
      (found = some (requests id).preStateParam ∧ id ∉ s.wrote ∧
        ∀ status ∈ s.met id, status = some (requests id).preStateParam))

theorem Returned.stable : (contract sessionId requests id).Stable (Returned requests id) := by
  rintro s t moved ⟨found,granted,effect,other⟩
  exact ⟨found,moved.granted.trans granted,moved.effects effect,other⟩

theorem Thrown.stable : (contract sessionId requests id).Stable (Thrown requests id) := by
  rintro s t moved ⟨ends,found,granted,rest⟩
  refine ⟨ends,found,moved.granted.trans granted,rest.imp (fun took => ⟨took.1,moved.effects took.2⟩) fun refused => ?_⟩
  rw [moved.met]
  exact ⟨refused.1,fun wrote => refused.2.1 (moved.wrote.mp wrote),refused.2.2⟩

theorem guarded_does {handler : StateHandler ErSessionMeta} {pre des : String}
    (locked : ∀ found t, Inv sessionId requests t → Held sessionId id found t →
      Leads sessionId requests id (AbstractStateMachine.locked handler context data pre des false)
        (fun _ => Handled sessionId requests id) (fun t => Failed id t ∨ Refused sessionId requests id t) t)
    (concerns : (requests id).concerns sessionId = true) (inv : Inv sessionId requests s) (fresh : Fresh id s) :
    Leads sessionId requests id
      (tryFinally (do
          call (.lock .session sessionId)
          AbstractStateMachine.locked handler context data pre des false)
        (call (.unLock .session sessionId)))
      (fun _ => Returned requests id) (fun t => Failed id t ∨ Thrown requests id t) s := by
  have stableE : (contract sessionId requests id).Stable fun t => Failed id t ∨ Refused sessionId requests id t :=
    Failed.stable.or Refused.stable
  have stableE' : (contract sessionId requests id).Stable fun t => Failed id t ∨ Thrown requests id t :=
    Failed.stable.or Thrown.stable
  refine Does.tryFinally (A := fun _ => Handled sessionId requests id)
    (E := fun t => Failed id t ∨ Refused sessionId requests id t) ?_ inv (fun _ => Returned.stable) stableE'
    (fun _ t inv here => ?_) fun t inv here => ?_
  · refine Does.bind ((lock_does fresh).mono (fun _ _ _ here => here) fun _ _ => .inl) inv stableE fun _ t inv here => ?_
    obtain ⟨found,held⟩ := here
    exact locked found t inv held
  · refine unLock_does Handled.stable Returned.stable stableE' (fun t u _ here frame granted wrote => .inl ?_) here
    obtain ⟨found,took,other⟩ := here
    refine ⟨took.owner,found,?_,?_,other⟩
    · rw [granted]
      exact took.granted
    · rw [frame.effects]
      exact took.effect
  · refine unLock_does stableE stableE' stableE' (fun t u inv here frame granted wrote => ?_) here
    rcases here with failed | ⟨ends,⟨found,took,other⟩ | held⟩
    · exact .inr ⟨.inl (frame.failed failed),.inl (frame.failed failed)⟩
    · refine .inl ⟨took.owner,.inr ⟨ends,found,by rw [granted]; exact took.granted,.inl ⟨other ends,?_⟩⟩⟩
      rw [frame.effects]
      exact took.effect
    · refine .inl ⟨held.owner,.inr ⟨ends,_,by rw [granted]; exact held.granted,.inr ⟨rfl,?_,fun status there => ?_⟩⟩⟩
      · rw [wrote]
        exact held.unwritten
      · have met := frame.met there
        rw [frame.statuses,inv.expected (concerns_line concerns) held.stored] at met
        exact List.mem_singleton.mp met

theorem request_does (info : MetaInfo) (concerns : (requests id).concerns sessionId = true)
    (inv : Inv sessionId requests s) (fresh : Fresh id s) :
    Leads sessionId requests id ((requests id).program info) (fun _ => Returned requests id)
      (fun t => Failed id t ∨ Thrown requests id t) s := by
  obtain ⟨is,unbroken,line⟩ := of_decide_eq_true concerns
  have named : ∀ line ∈ lines, line.1 ≠ "" := by decide
  have some_ : (requests id).preStateParam ≠ "" := named _ line
  have stableE : (contract sessionId requests id).Stable fun t => Failed id t ∨ Thrown requests id t :=
    Failed.stable.or Thrown.stable
  have built : Leads sessionId requests id ((sessionStateMachine info).buildStateChangeLine (requests id).context
      (requests id).sessionMeta (requests id).preStateParam (requests id).desStateParam)
      (fun built t => Fresh id t ∧ built = (({ (requests id).context with
        beforeStatus := some (requests id).preStateParam },(requests id).sessionMeta),
        (requests id).preStateParam ++ "_" ++ (requests id).desStateParam)) (Failed id) s := by
    refine .bind (A := fun _ => Fresh id) ?_ inv Failed.stable fun found t inv fresh => ?_
    · rw [is]
      refine Does.mono (getSession_does inv Fresh.stable (R := fun _ => True) ?_ (fun _ _ _ => trivial) fresh) ?_ ?_
      · exact fun _ _ _ reads calmly => calmly.fresh reads
      · exact fun _ _ _ here => here.1
      · exact fun _ _ failed => failed
    · refine .pure (Fresh.stable.and (.const _)) ⟨fresh,?_⟩
      rw [sessionLine,if_neg some_]
  refine (built.mono (fun _ _ _ here => here) fun _ _ => .inl).bind inv stableE ?_
  rintro _ t inv ⟨fresh,rfl⟩
  change Leads sessionId requests id (tryFinally (do
      call (.lock .session (requests id).sessionMeta.id)
      AbstractStateMachine.locked (sessionHandler info (sessionRepeatedCreateHandler info)
        ((requests id).preStateParam ++ "_" ++ (requests id).desStateParam)) _ (requests id).sessionMeta
        (requests id).preStateParam (requests id).desStateParam false)
    (call (.unLock .session (requests id).sessionMeta.id))) _ _ t
  rw [is]
  refine guarded_does (fun found t inv held => ?_) concerns inv fresh
  rcases handler_cases info concerns with ⟨waits,handler⟩ | ⟨ends,processorStatus,known,handler⟩
  · rw [handler]
    have unbroken' : ({ (requests id).context with beforeStatus := some (requests id).preStateParam } : Context).isBreak =
        false := unbroken
    exact (waiting_does concerns unbroken' is _ inv held).mono
      (fun _ _ _ took => ⟨found,took,fun ends => absurd waits ends⟩) fun _ _ => .inl
  · rw [handler]
    exact end_does known concerns ends unbroken is inv held

theorem init_inv {tables : Tables} (there : (tables.session sessionId).isSome) :
    Inv sessionId requests (.init sessionId tables) :=
  ⟨there,rfl,nofun,nofun⟩

theorem kept (info : MetaInfo) {p : Run} (reached : (system info sessionId requests).Reachable p) :
    Pool.Kept (Inv sessionId requests) (contract sessionId requests) Fresh (State.serve sessionId)
      (fun id request => Ends (fun _ t => request = requests id ∧ Returned requests id t)
        fun t => request = requests id ∧ (Failed id t ∨ Thrown requests id t)) p := by
  refine Pool.Kept.admitted (fit sessionId requests) ?_ ?_ reached
  · rintro _ ⟨tables,there,rfl⟩
    exact ⟨init_inv there,fun id => ⟨rfl,nofun⟩⟩
  · intro p id request admitted inv fresh
    obtain ⟨rfl,concerns⟩ := of_decide_eq_true admitted
    exact (request_does info concerns inv fresh).mono (fun _ _ _ here => ⟨rfl,here⟩) fun _ _ here => ⟨rfl,here⟩

/-- While the lock has only been given to requests that wait for resources, each where its
expected status was stored, the changes are compare-and-set; and every other request that was
given the lock has broken this as soon as it has come to its end without a failed call. -/
theorem changeStatus_exact (info : MetaInfo) (sessionId : String) (requests : ℕ → Request) {p : Run}
    (reached : (system info sessionId requests).Reachable p) :
    ((∀ id found, p.shared.granted id = some found → InOrder (requests id) found) → CompareAndSet requests p) ∧
      ∀ id found, p.shared.granted id = some found → (∃ request result, p.Ended id request result) →
        id ∉ p.shared.failed → CompareAndSet requests p → InOrder (requests id) found := by
  have kept := kept info reached
  constructor
  · intro ordered
    refine ⟨fun effect there => ?_,fun id request result ended => ?_,fun id request e ended works => ?_⟩
    · obtain ⟨granted,status⟩ := kept.invariant.effects effect there
      exact ⟨(ordered _ _ granted).2,status⟩
    · obtain ⟨-,found,-,effect,-⟩ := kept.ended (fit sessionId requests) ended
      exact ⟨_,effect,rfl⟩
    · obtain ⟨-,failed | ⟨ends,found,granted,-⟩⟩ := kept.ended (fit sessionId requests) ended
      · exact absurd failed works
      · exact absurd (ordered id found granted).1 ends
  · rintro id found granted ⟨request,result,ended⟩ works swaps
    have outcome := kept.ended (fit sessionId requests) ended
    have expected (effect : ⟨id,found,some (requests id).desStateParam⟩ ∈ p.shared.effects) :
        found = some (requests id).preStateParam := (swaps.effects _ effect).1
    cases result with
    | ok a =>
      obtain ⟨-,found',granted',effect,other⟩ := outcome
      cases granted.symm.trans granted'
      refine ⟨?_,expected effect⟩
      by_contra ends
      exact other ends (expected effect)
    | error e =>
      obtain ⟨rfl,failed | ⟨ends,found',granted',rest⟩⟩ := outcome
      · exact absurd failed works
      cases granted.symm.trans granted'
      rcases rest with ⟨other,effect⟩ | ⟨-,-,met⟩
      · exact absurd (expected effect) other
      · obtain ⟨status,there,other⟩ := (swaps.rejected id _ e ended works).2
        exact absurd (met status there) other

end

def named : ErSessionMeta := ⟨"s","","","","",none,none,[],[]⟩

def ending (pre des : String) (_ : ℕ) : Request := ⟨{},named,pre,des⟩

def tablesWith (status : String) : Tables := ⟨[⟨"s","",status,none,none,"",some 0,some 0⟩],[],[],0,[],[]⟩

def alone (request : Request) (n : ℕ) : List (Pool.Act Request Env) := .invoke 0 request :: List.replicate n (.step 0 {})

/-- A session that waits for resources is killed. -/
theorem changeStatus_exact_waiting : ∃ p, (system ⟨false,1⟩ "s" (ending waiting "KILLED")).Reachable p ∧
    stored "s" p.shared.tables = some "KILLED" ∧ CompareAndSet (ending waiting "KILLED") p := by
  have ran : ((system ⟨false,1⟩ "s" (ending waiting "KILLED")).exec
      ⟨.init "s" (tablesWith waiting),fun _ => none⟩ (alone (ending waiting "KILLED" 0) 6)).any (fun p => decide
      (stored "s" p.shared.tables = some "KILLED" ∧ p.shared.granted 0 = some (some waiting))) = true := by
    decide +kernel
  obtain ⟨p,run,found⟩ := (Option.any_eq_true _ _).mp ran
  obtain ⟨status,mine⟩ := of_decide_eq_true found
  have run : (system ⟨false,1⟩ "s" (ending waiting "KILLED")).Run _ _ p := run
  have reached : (system ⟨false,1⟩ "s" (ending waiting "KILLED")).Reachable p :=
    ⟨_,_,⟨⟨_,rfl,rfl⟩,fun _ => rfl⟩,run⟩
  refine ⟨p,reached,status,(changeStatus_exact _ _ _ reached).1 fun id found granted => ?_⟩
  by_cases same : id = 0
  · subst same
    cases mine.symm.trans granted
    exact ⟨rfl,rfl⟩
  · have few : ∀ act ∈ alone (ending waiting "KILLED" 0) 6, act.id = 0 := by decide
    have idle : p.calls id = none := Pool.run_others run.unrestricted fun act member is => same (is ▸ few act member)
    cases ((kept _ reached).fresh id idle).1.symm.trans granted

/-- A kill of a `NEW` session is rejected when `NEW` is expected and stored throughout, and it
takes effect when `ACTIVE` is stored. -/
theorem kill_inverted : (∃ p, (system ⟨false,1⟩ "s" (ending "NEW" "KILLED")).Reachable p ∧
      p.Ended 0 (ending "NEW" "KILLED" 0) (.error (.runtime "")) ∧ p.shared.failed = [] ∧
      p.shared.statuses = [some "NEW"] ∧ ¬ CompareAndSet (ending "NEW" "KILLED") p) ∧
    ∃ p, (system ⟨false,1⟩ "s" (ending "NEW" "KILLED")).Reachable p ∧
      p.shared.statuses = [some "ACTIVE",some "KILLED"] ∧ ¬ CompareAndSet (ending "NEW" "KILLED") p := by
  constructor
  · have ran : ((system ⟨false,1⟩ "s" (ending "NEW" "KILLED")).exec
        ⟨.init "s" (tablesWith "NEW"),fun _ => none⟩ (alone (ending "NEW" "KILLED" 0) 8)).any (fun p => decide
        (p.result 0 = some (ending "NEW" "KILLED" 0,.error (.runtime "")) ∧ p.shared.failed = [] ∧
          p.shared.statuses = [some "NEW"] ∧ p.shared.met 0 = [some "NEW"])) = true := by
      decide +kernel
    obtain ⟨p,run,found⟩ := (Option.any_eq_true _ _).mp ran
    obtain ⟨result,failed,statuses,met⟩ := of_decide_eq_true found
    have ended := Pool.ended_of_result result
    refine ⟨p,⟨_,_,⟨⟨_,rfl,rfl⟩,fun _ => rfl⟩,run⟩,ended,failed,statuses,fun swaps => ?_⟩
    obtain ⟨-,status,there,other⟩ := swaps.rejected 0 _ _ ended (by rw [failed]; exact List.not_mem_nil)
    rw [met] at there
    exact other (List.mem_singleton.mp there)
  · have ran : ((system ⟨false,1⟩ "s" (ending "NEW" "KILLED")).exec
        ⟨.init "s" (tablesWith "ACTIVE"),fun _ => none⟩ (alone (ending "NEW" "KILLED" 0) 13)).any (fun p => decide
        (p.shared.effects = [⟨0,some "ACTIVE",some "KILLED"⟩] ∧
          p.shared.statuses = [some "ACTIVE",some "KILLED"])) = true := by
      decide +kernel
    obtain ⟨p,run,found⟩ := (Option.any_eq_true _ _).mp ran
    obtain ⟨effects,statuses⟩ := of_decide_eq_true found
    refine ⟨p,⟨_,_,⟨⟨_,rfl,rfl⟩,fun _ => rfl⟩,run⟩,statuses,fun swaps => ?_⟩
    have expected := (swaps.effects ⟨0,some "ACTIVE",some "KILLED"⟩ (by rw [effects]; exact List.mem_singleton_self _)).1
    exact absurd expected (by decide)

end Eggroll.Cluster.ExpectedStatus
