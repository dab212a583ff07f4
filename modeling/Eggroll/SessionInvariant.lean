import Eggroll.SessionCalls
import Eggroll.SessionRequests

/-! What holds of the requests for a session in every state, what each can rely on while the
others take steps, and what leaves a creation alone. -/
namespace Eggroll.Cluster.SessionCreation
open Library
open Program hiding call

/-- The statuses that changes bring a session to, other than `NEW`. -/
def later : List String := ["ACTIVE","KILLED","CLOSED","ERROR"]

/-- The row of the same session, in the same status or a later one. -/
structure Follows (row other : SessionMain) : Prop where
  sessionId : other.sessionId = row.sessionId
  name : other.name = row.name
  tag : other.tag = row.tag
  totalProcCount : other.totalProcCount = row.totalProcCount
  status : other.status = row.status ∨ other.status ∈ later

theorem Follows.refl (row : SessionMain) : Follows row row := ⟨rfl,rfl,rfl,rfl,.inl rfl⟩

/-- Nothing has been inserted, and the session follows from what it was. -/
structure Steady (sessionId : String) (s t : Tables) : Prop where
  missing : s.session sessionId = none → t.session sessionId = none
  session : ∀ row, s.session sessionId = some row → ∃ other, t.session sessionId = some other ∧ Follows row other
  processors : t.processors.map (fun row => (row.processorId,row.sessionId)) =
    s.processors.map fun row => (row.processorId,row.sessionId)
  resources : t.processorResources.map ProcessorResource.processorId =
    s.processorResources.map ProcessorResource.processorId
  nextId : t.nextId = s.nextId

def plain (patch : SessionPatch) : Bool :=
  patch.name = none ∧ patch.tag = none ∧ patch.totalProcCount = none ∧ ∀ status ∈ patch.status, status ∈ later

def harmless : Op → Bool
  | .lock .session _ | .unLock .session _ | .getSession _ => true
  | .updateSession _ patch => plain patch
  | op => quiet op

section Tables
variable {sessionId : String} {s t : Tables}

theorem Steady.of_same (sessions : t.sessions = s.sessions)
    (processors : t.processors.map (fun row => (row.processorId,row.sessionId)) =
      s.processors.map fun row => (row.processorId,row.sessionId))
    (resources : t.processorResources.map ProcessorResource.processorId =
      s.processorResources.map ProcessorResource.processorId)
    (nextId : t.nextId = s.nextId) : Steady sessionId s t := by
  have same : t.session sessionId = s.session sessionId := by rw [Tables.session,sessions,Tables.session]
  refine ⟨fun missing => same.trans missing,fun row found => ⟨row,same.trans found,.refl row⟩,processors,resources,nextId⟩

theorem Steady.refl (s : Tables) : Steady sessionId s s := .of_same rfl rfl rfl rfl

theorem write_quiet {op : Op} (still : quiet op = true) : Steady sessionId s (s.write op) := by
  cases op with
  | updateProcessor processorId patch =>
    refine .of_same rfl ?_ rfl rfl
    simp only [Tables.write,List.map_map]
    refine List.map_congr_left fun row _ => ?_
    simp only [Function.comp_apply]
    split <;> rfl
  | updateResource key status =>
    refine .of_same rfl rfl ?_ rfl
    simp only [Tables.write,List.map_map]
    refine List.map_congr_left fun row _ => ?_
    simp only [Function.comp_apply]
    split <;> rfl
  | saveSession | updateSession | saveProcessor | saveResource => cases still
  | _ => exact .of_same rfl rfl rfl rfl

private theorem patch_follows {patch : SessionPatch} (is_plain : plain patch = true) (row : SessionMain) :
    Follows row (patch.apply row) := by
  simp only [plain,decide_eq_true_eq] at is_plain
  obtain ⟨name,tag,total,status⟩ := is_plain
  refine ⟨rfl,by simp [SessionPatch.apply,name],by simp [SessionPatch.apply,tag],by simp [SessionPatch.apply,total],?_⟩
  cases is : patch.status with
  | none => exact .inl (by simp [SessionPatch.apply,is])
  | some after => exact .inr (by simpa [SessionPatch.apply,is] using status after is)

theorem write_plain {other : String} {patch : SessionPatch} (is_plain : plain patch = true) :
    Steady sessionId s (s.write (.updateSession other patch)) := by
  refine ⟨fun missing => by rw [session_update,missing]; rfl,fun row found => ?_,rfl,rfl,rfl⟩
  rw [session_update,found]
  refine ⟨_,rfl,?_⟩
  dsimp only
  split
  · exact patch_follows is_plain row
  · exact .refl row

theorem Steady.processorsOf (steady : Steady sessionId s t) (other : String) :
    (t.processorsOf other).map SessionProcessor.processorId = (s.processorsOf other).map SessionProcessor.processorId := by
  have ids (u : Tables) : (u.processorsOf other).map SessionProcessor.processorId =
      ((u.processors.map fun row => (row.processorId,row.sessionId)).filter fun pair => pair.2 = other).map Prod.fst := by
    rw [List.filter_map,List.map_map]
    rfl
  rw [ids,ids,steady.processors]

private theorem Steady.mem_processors (steady : Steady sessionId s t) {row : SessionProcessor} (member : row ∈ t.processors) :
    ∃ other ∈ s.processors, other.processorId = row.processorId := by
  have there := List.mem_map_of_mem (f := fun row => (row.processorId,row.sessionId)) member
  rw [steady.processors] at there
  obtain ⟨other,inside,same⟩ := List.mem_map.mp there
  exact ⟨other,inside,(Prod.mk.inj same).1⟩

private theorem Steady.mem_resources (steady : Steady sessionId s t) {row : ProcessorResource}
    (member : row ∈ t.processorResources) : ∃ other ∈ s.processorResources, other.processorId = row.processorId := by
  have there := List.mem_map_of_mem (f := ProcessorResource.processorId) member
  rw [steady.resources] at there
  exact List.mem_map.mp there

end Tables

section
variable (info : MetaInfo) (sessionId : String) (requests : ℕ → Request)

/-- The stored row of a creation. -/
structure Stored (creation : Creation) (row : SessionMain) : Prop where
  sessionId : row.sessionId = creation.row.sessionId
  name : row.name = creation.row.name
  tag : row.tag = creation.row.tag
  totalProcCount : row.totalProcCount = creation.row.totalProcCount
  status : row.status = "NEW" ∨ row.status ∈ later

/-- The creation as far as it has come: finished, or still under the lock. -/
structure Progress (creation : Creation) (sessionMeta : ErSessionMeta) (eggs : Int) (s : State) : Prop where
  id : creation.row.sessionId = sessionId
  stored : ∃ row, s.tables.session sessionId = some row ∧ Stored creation row
  made : creation.Made info requests sessionMeta eggs
  added : s.added.map unnumbered <+: creation.rows sessionMeta eggs
  held : creation.Finished sessionMeta eggs s ∨ s.started = [] ∧ (s.locks sessionId).owner = some creation.request

structure Inv (s : State) : Prop where
  ids : ∀ row ∈ s.tables.processors, 0 ≤ row.processorId
  resources : ∀ row ∈ s.tables.processorResources, row.processorId < s.tables.nextId
  listed : (s.tables.processorsOf sessionId).map SessionProcessor.processorId = s.added.map SessionProcessor.processorId
  absent : s.creations = [] → s.tables.session sessionId = none ∧ s.added = [] ∧ s.started = []
  created : ∀ creation ∈ s.creations, s.creations = [creation] ∧
    ∃ sessionMeta eggs, Progress info sessionId requests creation sessionMeta eggs s

/-- What a request can rely on while others take steps, but for its looks at the session: its
lock and its nodes are its own, and while it has the lock or is the creator nobody inserts. -/
structure Keeps (id : ℕ) (s t : State) : Prop where
  owner : (t.locks sessionId).owner = some id ↔ (s.locks sessionId).owner = some id
  nodes : t.nodes id = s.nodes id
  creations : s.creations ⊆ t.creations
  others : ∀ creation ∈ t.creations, creation.request = id → creation ∈ s.creations
  added : s.added ⊆ t.added
  own : ((s.locks sessionId).owner = some id ∨ ∃ creation ∈ s.creations, creation.request = id) →
    t.creations = s.creations ∧ t.added = s.added ∧ t.started = s.started
  resources : t.tables.processorResources.map ProcessorResource.processorId =
    s.tables.processorResources.map ProcessorResource.processorId

variable {info sessionId requests}
variable {id : ℕ} {s t : State}

theorem Keeps.refl (id : ℕ) (s : State) : Keeps sessionId id s s :=
  ⟨Iff.rfl,rfl,List.Subset.refl _,fun _ member _ => member,List.Subset.refl _,fun _ => ⟨rfl,rfl,rfl⟩,rfl⟩

theorem Keeps.trans {u : State} (first : Keeps sessionId id s t) (second : Keeps sessionId id t u) :
    Keeps sessionId id s u where
  owner := second.owner.trans first.owner
  nodes := second.nodes.trans first.nodes
  creations := List.Subset.trans first.creations second.creations
  others creation member mine := first.others creation (second.others creation member mine) mine
  added := List.Subset.trans first.added second.added
  own own := by
    obtain ⟨creations,added,started⟩ := first.own own
    obtain ⟨creations',added',started'⟩ := second.own (own.imp first.owner.mpr fun creator => by rwa [creations])
    exact ⟨creations'.trans creations,added'.trans added,started'.trans started⟩
  resources := second.resources.trans first.resources

variable (info sessionId requests) in
def contract (id : ℕ) : Program.Contract State where
  invariant := Inv info sessionId requests
  rely s t := Keeps sessionId id s t ∧ t.looked id = s.looked id
  guarantee s t := ∀ other ≠ id, Keeps sessionId other s t ∧ t.looked other = s.looked other
  refl s := ⟨.refl id s,rfl⟩
  trans first second := ⟨first.1.trans second.1,second.2.trans first.2⟩

/-- A request that has not begun. -/
structure Fresh (id : ℕ) (s : State) : Prop where
  looked : s.looked id = []
  creator : ∀ creation ∈ s.creations, creation.request ≠ id

theorem Fresh.keeps {id : ℕ} {s t : State} (moved : Keeps sessionId id s t ∧ t.looked id = s.looked id)
    (fresh : Fresh id s) : Fresh id t :=
  ⟨moved.2.trans fresh.looked,fun creation member mine => fresh.creator creation (moved.1.others creation member mine) mine⟩

theorem fit : Pool.Fit (Inv info sessionId requests) (contract info sessionId requests) Fresh where
  same _ := rfl
  others other _ _ guaranteed := guaranteed _ other
  fresh := Fresh.keeps

variable {env : Env} {op : Op} {answer : Except Failure (Ans op)}

theorem serve_cases (other : sessionLock op = false) (served : State.serve id s op env = some (t,answer)) :
    (t = s ∧ (∃ e, answer = .error e) ∧ (env.fails = true ∨ s.tables.refuses op = true)) ∨
      (s.tables.refuses op = false ∧ answer = .ok (s.tables.answer env op) ∧
        t = { s.note id env op with tables := s.tables.write op }) := by
  rw [State.serve_other other] at served
  unfold Tables.serve at served
  cases failing : (if env.fails then Tables.failure op else none) with
  | some e =>
    rw [failing] at served
    cases served
    refine .inl ⟨rfl,⟨e,rfl⟩,.inl ?_⟩
    by_contra works
    rw [if_neg works] at failing
    cases failing
  | none =>
    rw [failing] at served
    cases refused : s.tables.refuses op with
    | true =>
      simp only [refused,if_true] at served
      cases served
      exact .inl ⟨rfl,⟨_,rfl⟩,.inr rfl⟩
    | false =>
      simp only [refused] at served
      cases served
      exact .inr ⟨rfl,rfl,rfl⟩

theorem service_cases (served : service requests id s op env = some (t,answer)) :
    orderly requests id s op env = true ∧ State.serve id s op env = some (t,answer) := by
  unfold service Service.restrict at served
  split at served
  case isTrue allowed => exact ⟨allowed,served⟩
  case isFalse => cases served

private theorem note_quiet (still : quiet op = true) : s.note id env op = s := by
  cases op with
  | getSession | saveSession | saveProcessor | listHealthyNodes => cases still
  | submit task => cases task with
    | startContainers => cases still
    | _ => rfl
  | _ => rfl

theorem Inv.steady (inv : Inv info sessionId requests s) (tables : Steady sessionId s.tables t.tables)
    (creations : t.creations = s.creations) (added : t.added = s.added) (started : t.started = s.started)
    (owner : ∀ creation ∈ s.creations, s.started = [] → (s.locks sessionId).owner = some creation.request →
      (t.locks sessionId).owner = some creation.request) : Inv info sessionId requests t where
  ids row member := by
    obtain ⟨other,inside,same⟩ := tables.mem_processors member
    exact same ▸ inv.ids other inside
  resources row member := by
    obtain ⟨other,inside,same⟩ := tables.mem_resources member
    rw [tables.nextId,← same]
    exact inv.resources other inside
  listed := by rw [tables.processorsOf,inv.listed,added]
  absent none := by
    rw [added,started]
    obtain ⟨missing,empty⟩ := inv.absent (creations.symm.trans none)
    exact ⟨tables.missing missing,empty⟩
  created creation member := by
    rw [creations] at member ⊢
    obtain ⟨only,sessionMeta,eggs,progress⟩ := inv.created creation member
    refine ⟨only,sessionMeta,eggs,progress.id,?_,progress.made,by rw [added]; exact progress.added,?_⟩
    · obtain ⟨row,found,stored⟩ := progress.stored
      obtain ⟨other,found',follows⟩ := tables.session row found
      refine ⟨other,found',follows.sessionId.trans stored.sessionId,follows.name.trans stored.name,
        follows.tag.trans stored.tag,follows.totalProcCount.trans stored.totalProcCount,?_⟩
      rcases follows.status with same | late
      · rw [same]
        exact stored.status
      · exact .inr late
    · rcases progress.held with finished | ⟨unsent,holder⟩
      · refine .inl ⟨by rw [added]; exact finished.added,?_⟩
        rw [started,added]
        exact finished.started
      · exact .inr ⟨started.trans unsent,owner creation member unsent holder⟩

theorem Keeps.steady (tables : Steady sessionId s.tables t.tables) (same : t = { s with tables := t.tables }) (i : ℕ) :
    Keeps sessionId i s t ∧ t.looked i = s.looked i := by
  have resources := tables.resources
  rw [same]
  exact ⟨⟨Iff.rfl,rfl,List.Subset.refl _,fun _ member _ => member,List.Subset.refl _,fun _ => ⟨rfl,rfl,rfl⟩,resources⟩,rfl⟩

theorem quiet_served (still : quiet op = true) (served : State.serve id s op env = some (t,answer)) :
    Steady sessionId s.tables t.tables ∧ t = { s with tables := t.tables } := by
  have other : sessionLock op = false := by
    cases op with
    | lock cache key | unLock cache key => cases cache with
      | session => cases still
      | _ => rfl
    | _ => rfl
  rcases serve_cases other served with ⟨rfl,-⟩ | ⟨-,-,rfl⟩
  · exact ⟨.refl _,rfl⟩
  · rw [note_quiet still]
    exact ⟨write_quiet still,rfl⟩

private theorem update_served {other : String} {patch : SessionPatch} {answer : Except Failure (Ans (.updateSession other patch))}
    (is_plain : plain patch = true) (served : State.serve id s (.updateSession other patch) env = some (t,answer)) :
    Steady sessionId s.tables t.tables ∧ t = { s with tables := t.tables } := by
  rcases serve_cases rfl served with ⟨rfl,-⟩ | ⟨-,-,rfl⟩
  · exact ⟨.refl _,rfl⟩
  · exact ⟨write_plain is_plain,rfl⟩

theorem Inv.same (inv : Inv info sessionId requests s) (tables : Steady sessionId s.tables t.tables)
    (same : t = { s with tables := t.tables }) : Inv info sessionId requests t := by
  refine inv.steady tables ?_ ?_ ?_ fun _ _ _ holder => ?_
  all_goals rw [same]
  exact holder

def State.look (s : State) (id : ℕ) (key : String) : State :=
  { s with looked := Function.update s.looked id (s.looked id ++ [(s.tables.session key).map SessionMain.status]) }

theorem look_served {key : String} {answer : Except Failure (Option SessionMain)}
    (served : State.serve id s (.getSession key) env = some (t,answer)) :
    (t = s ∧ ∃ e, answer = .error e) ∨ (answer = .ok (s.tables.session key) ∧ t = s.look id key) := by
  rcases serve_cases rfl served with ⟨rfl,failed,-⟩ | ⟨-,answered,rfl⟩
  · exact .inl ⟨rfl,failed⟩
  · exact .inr ⟨answered,rfl⟩

theorem Keeps.look (key : String) (i : ℕ) : Keeps sessionId i s (s.look id key) :=
  ⟨Iff.rfl,rfl,List.Subset.refl _,fun _ member _ => member,List.Subset.refl _,fun _ => ⟨rfl,rfl,rfl⟩,rfl⟩

theorem look_others (key : String) {i : ℕ} (other : i ≠ id) : (s.look id key).looked i = s.looked i :=
  Function.update_of_ne other _ _

theorem Inv.look (inv : Inv info sessionId requests s) (key : String) : Inv info sessionId requests (s.look id key) :=
  inv.steady (.refl _) rfl rfl rfl fun _ _ _ holder => holder

theorem lock_served {key : String} {answer : Except Failure Unit}
    (served : State.serve id s (.lock .session key) env = some (t,answer)) :
    ∃ lock, (s.locks key).lock id = some lock ∧ t = s.setLock key lock ∧ answer = .ok () := by
  obtain ⟨lock,locked,is⟩ := Option.map_eq_some_iff.mp served
  cases is
  exact ⟨lock,locked,rfl,rfl⟩

theorem unlock_served {key : String} {answer : Except Failure Unit}
    (served : State.serve id s (.unLock .session key) env = some (t,answer)) :
    (t = s ∧ (s.locks key).unlock id = none) ∨
      ∃ lock, (s.locks key).unlock id = some lock ∧ t = s.setLock key lock ∧ answer = .ok () := by
  simp only [State.serve] at served
  cases unlocked : (s.locks key).unlock id with
  | none =>
    rw [unlocked] at served
    cases served
    exact .inl ⟨rfl,rfl⟩
  | some lock =>
    rw [unlocked] at served
    cases served
    exact .inr ⟨lock,rfl,rfl,rfl⟩

theorem Keeps.setLock {key : String} {lock : ReentrantLock ℕ} {i : ℕ}
    (owner : lock.owner = some i ↔ (s.locks key).owner = some i) :
    Keeps sessionId i s (s.setLock key lock) ∧ (s.setLock key lock).looked i = s.looked i := by
  refine ⟨⟨?_,rfl,List.Subset.refl _,fun _ member _ => member,List.Subset.refl _,fun _ => ⟨rfl,rfl,rfl⟩,rfl⟩,rfl⟩
  by_cases same : sessionId = key
  · subst same
    simpa [State.setLock] using owner
  · simp [State.setLock,Function.update_of_ne same]

theorem Inv.setLock (inv : Inv info sessionId requests s) {key : String} {lock : ReentrantLock ℕ}
    (owner : ∀ creation ∈ s.creations, s.started = [] → (s.locks key).owner = some creation.request →
      lock.owner = some creation.request) : Inv info sessionId requests (s.setLock key lock) := by
  refine inv.steady (.refl _) rfl rfl rfl fun creation member unsent holder => ?_
  by_cases same : sessionId = key
  · subst same
    simpa [State.setLock] using owner creation member unsent holder
  · simpa [State.setLock,Function.update_of_ne same] using holder

def Idle (id : ℕ) (s : State) : Prop := ∀ creation ∈ s.creations, creation.request = id → s.started ≠ []

def Same (s t : State) : Prop := t.creations = s.creations ∧ t.added = s.added ∧ t.started = s.started

theorem harmless_step (safe : harmless op = true) (inv : Inv info sessionId requests s) (idle : Idle id s)
    (served : State.serve id s op env = some (t,answer)) :
    Inv info sessionId requests t ∧ (contract info sessionId requests id).guarantee s t ∧ Same s t := by
  have steady (tables : Steady sessionId s.tables t.tables) (same : t = { s with tables := t.tables }) :
      Inv info sessionId requests t ∧ (contract info sessionId requests id).guarantee s t ∧ Same s t := by
    refine ⟨inv.same tables same,fun i _ => Keeps.steady tables same i,?_⟩
    rw [same]
    exact ⟨rfl,rfl,rfl⟩
  by_cases still : quiet op = true
  · obtain ⟨tables,same⟩ := quiet_served still served
    exact steady tables same
  cases op with
  | getSession key =>
    rcases look_served served with ⟨rfl,-⟩ | ⟨-,rfl⟩
    · exact steady (.refl _) rfl
    · exact ⟨inv.look key,fun i other => ⟨.look key i,look_others key other⟩,rfl,rfl,rfl⟩
  | updateSession other patch =>
    obtain ⟨tables,same⟩ := update_served safe served
    exact steady tables same
  | lock cache key =>
    cases cache with
    | session =>
      obtain ⟨lock,locked,rfl,-⟩ := lock_served served
      refine ⟨inv.setLock fun creation _ _ holder => ?_,fun i other => Keeps.setLock (ReentrantLock.lock_others other locked),rfl,rfl,rfl⟩
      obtain ⟨before,after⟩ := ReentrantLock.lock_owner locked
      rw [after]
      rcases before with free | mine
      · rw [free] at holder
        cases holder
      · exact mine.symm.trans holder
    | _ => exact absurd rfl still
  | unLock cache key =>
    cases cache with
    | session =>
      rcases unlock_served served with ⟨rfl,-⟩ | ⟨lock,unlocked,rfl,-⟩
      · exact steady (.refl _) rfl
      · refine ⟨inv.setLock fun creation member unsent holder => ?_,
          fun i other => Keeps.setLock (ReentrantLock.unlock_others other unlocked),rfl,rfl,rfl⟩
        have mine := (ReentrantLock.unlock_owner unlocked).1
        exact absurd unsent (idle creation member (Option.some.inj (holder.symm.trans mine)))
    | _ => exact absurd rfl still
  | saveSession | saveProcessor | saveResource | listHealthyNodes => cases safe
  | submit task => cases task with
    | startContainers => cases safe
    | _ => exact absurd rfl still
  | _ => exact absurd rfl still

end

abbrev Safe {α : Type} (p : Change α) (Q : α → Prop) : Prop := p.Makes (fun op => harmless op = true) Q

private theorem quiet_harmless (op : Op) (still : quiet op = true) : harmless op = true := by
  cases op with
  | lock cache key | unLock cache key => cases cache <;> rfl
  | getSession | updateSession => cases still
  | _ => exact still

private theorem looks_harmless (sessionId : String) : harmless (.getSession sessionId) = true := rfl

theorem call_safe {op : Op} (safe : harmless op = true) : Safe (call op) fun _ => True := call_makes safe

abbrev SafeHandler {T : Type} (handler : StateHandler T) (P : T → Prop) (pre des : String) : Prop :=
  MakingHandler (fun op => harmless op = true) handler P pre des

section Safe
variable {info : MetaInfo} {context : Context} {pre des : String}

private theorem changeEach_safe (ends : des = "KILLED" ∨ des = "STOPPED") (processors : List ErProcessor) :
    Safe (changeEach info des context processors) fun _ => True :=
  changeEach_makes (fun _ processor => processorEnd_makes quiet_harmless _ ends processor) processors

private theorem getSession_safe (sessionId : String) (withProcessor withOption withResource : Bool) :
    Safe (getSession sessionId withProcessor withOption withResource) fun _ => True :=
  getSession_makes quiet_harmless looks_harmless _ _ _ _

private theorem found_safe (sessionId : String) (withProcessor withOption withResource : Bool) :
    Safe (getSession sessionId withProcessor withOption withResource >>= notNull) fun _ => True :=
  found_makes quiet_harmless looks_harmless _ _ _ _

theorem sessionActive_safe : SafeHandler sessionActiveHandler (fun data => data.status = "ACTIVE") pre des where
  prepare _ _ := .bind (found_safe _ _ _ _) fun _ _ => .pure rfl
  handle _ data active := by
    refine .bind (call_safe ?_) fun _ _ => .bind (found_safe _ _ _ _) fun _ _ => .pure trivial
    simp [harmless,plain,active,later]
  submit _ _ := rfl

private theorem sessionEnd_safe {processorStatus : String} (known : processorStatus = "KILLED" ∨ processorStatus = "STOPPED")
    (ends : des ∈ later) : SafeHandler (sessionEndHandler info processorStatus) (fun _ => True) pre des where
  prepare _ _ := by
    refine .bind (getSession_safe _ _ _ _) fun found _ => ?_
    cases found with
    | none => exact .raise
    | some erSessionMeta =>
      dsimp only
      split
      · exact .raise
      · exact .pure trivial
  handle _ data _ := by
    refine .bind (call_safe ?_) fun _ _ => .bind (changeEach_safe known _) fun _ _ =>
      .bind (found_safe _ _ _ _) fun _ _ => .pure trivial
    simp [harmless,plain,ends]
  submit _ _ := rfl

private theorem sessionWaitingKill_safe (ends : des ∈ later) :
    SafeHandler sessionWaitingKillHandler (fun _ => True) pre des where
  prepare _ _ := .pure trivial
  handle _ _ _ := by
    refine .bind (call_safe ?_) fun _ _ => .pure trivial
    simp [harmless,plain,ends]
  submit _ _ := rfl

theorem sessionIgnore_safe : SafeHandler sessionIgnoreHandler (fun _ => True) pre des where
  prepare _ _ := .pure trivial
  handle _ _ _ := .pure trivial
  submit _ _ := rfl

theorem change_safe (repeatedCreate : StateHandler ErSessionMeta) (ends : des ∈ later) (data : ErSessionMeta) :
    Safe ((sessionMachineWith info repeatedCreate).changeStatus context data pre des false) fun _ => True := by
  refine changeStatus_makes (R := fun built => ∃ stored, built.2 = stored ++ "_" ++ des) (fun _ => rfl) (fun _ => rfl) ?_ ?_
  · exact .bind (getSession_safe _ _ _ _) fun found _ => .pure ⟨_,rfl⟩
  · rintro built ⟨stored,is⟩ handler given
    cases given
    obtain ⟨waiting,waited,create,again⟩ : stored ++ "_" ++ des ≠ "_WAITING_RESOURCE" ∧
        stored ++ "_" ++ des ≠ "WAITING_RESOURCE_NEW" ∧ stored ++ "_" ++ des ≠ "_NEW" ∧
        stored ++ "_" ++ des ≠ "NEW_NEW" := by
      simp only [later,List.mem_cons,List.not_mem_nil,or_false] at ends
      rcases ends with rfl | rfl | rfl | rfl
      all_goals
        exact ⟨fun same => absurd (line_suffix same) (by decide),fun same => absurd (line_suffix same) (by decide),
          fun same => absurd (line_suffix same) (by decide),fun same => absurd (line_suffix same) (by decide)⟩
    rw [is,sessionHandler,if_neg waiting,if_neg waited,if_neg create,if_neg again]
    split
    · exact ⟨_,sessionActive_safe⟩
    split
    · exact ⟨_,sessionEnd_safe (.inl rfl) ends⟩
    split
    · exact ⟨_,sessionEnd_safe (.inr rfl) ends⟩
    split
    · exact ⟨_,sessionWaitingKill_safe ends⟩
    · exact ⟨_,sessionIgnore_safe⟩

theorem killUnstarted_safe (data : ErSessionMeta) : Safe (killUnstarted info context data) fun _ => True := by
  have read : Safe (getSessionMain data.id) fun _ => True := .bind (call_safe rfl) fun _ _ => .pure trivial
  refine .bind (Q := fun _ => True) (.bind read fun found _ => (notNull_makes found).mono fun _ _ => trivial) fun erSessionMeta _ => ?_
  split
  · exact .bind (change_safe _ (by decide) _) fun _ _ => .raise
  · exact .pure trivial

theorem checkSessionRpcReady_safe (sessionId : String) (looks : ℕ) :
    Safe (checkSessionRpcReady sessionId looks) fun _ => True :=
  checkSessionRpcReady_makes quiet_harmless looks_harmless _ _

end Safe

end Eggroll.Cluster.SessionCreation
