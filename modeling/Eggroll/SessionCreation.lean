import Eggroll.SessionInvariant

/-! The creation of a session keeps the lock of its id from the look that finds no session to
the start command, and only the holder of the lock inserts. -/
namespace Eggroll.Cluster.SessionCreation
open Library
open Program hiding call

section
variable (info : MetaInfo) (sessionId : String) (requests : ℕ → Request) (id : ℕ)

def Stable (A : State → Prop) : Prop := ∀ s t, Keeps sessionId id s t → t.looked id = s.looked id → A s → A t

/-- An assertion for each result, and one for exceptions. -/
def Ends {α : Type} (A : α → State → Prop) (E : State → Prop) : Except Failure α → State → Prop
  | .ok a => A a
  | .error _ => E

abbrev Does {α : Type} (p : Change α) (A : α → State → Prop) (E : State → Prop) (s : State) : Prop :=
  p.Sat (contract info sessionId requests id) (service requests id) (Ends A E) s

variable {info sessionId requests id}
variable {α β : Type} {s t : State} {E : State → Prop}

theorem Stable.and {A B : State → Prop} (first : Stable sessionId id A) (second : Stable sessionId id B) :
    Stable sessionId id fun s => A s ∧ B s :=
  fun s t moved same holds => ⟨first s t moved same holds.1,second s t moved same holds.2⟩

theorem Stable.const (p : Prop) : Stable sessionId id fun _ => p := fun _ _ _ _ => fun holds => holds

theorem Does.pure {A : α → State → Prop} {a : α} (stable : Stable sessionId id (A a)) (holds : A a s) :
    Does info sessionId requests id (Pure.pure a) A E s :=
  fun t moved _ => stable s t moved.1 moved.2 holds

theorem Does.raise {A : α → State → Prop} {e : Failure} (stable : Stable sessionId id E) (holds : E s) :
    Does info sessionId requests id (Program.raise e) A E s :=
  fun t moved _ => stable s t moved.1 moved.2 holds

theorem Does.bind {A : α → State → Prop} {B : β → State → Prop} {p : Change α} {f : α → Change β}
    (does : Does info sessionId requests id p A E s) (inv : Inv info sessionId requests s)
    (stable : Stable sessionId id E)
    (follows : ∀ a t, Inv info sessionId requests t → A a t → Does info sessionId requests id (f a) B E t) :
    Does info sessionId requests id (p >>= f) B E s :=
  Program.Sat.bind does inv follows fun _ _ _ holds => Does.raise stable holds

theorem Does.tryFinally {A : α → State → Prop} {p : Change α} {last : Change Unit}
    (does : Does info sessionId requests id p A E s) (inv : Inv info sessionId requests s)
    (stable : ∀ a, Stable sessionId id (A a)) (stableE : Stable sessionId id E)
    (follows : ∀ a t, Inv info sessionId requests t → A a t → Does info sessionId requests id last (fun _ => A a) E t)
    (raised : ∀ t, Inv info sessionId requests t → E t → Does info sessionId requests id last (fun _ => E) E t) :
    Does info sessionId requests id (p.tryFinally last) A E s := by
  refine Program.Sat.andThen does inv fun result t inv holds => ?_
  cases result with
  | ok a =>
    refine Program.Sat.andThen (follows a t inv holds) inv fun result u inv holds => ?_
    cases result with
    | ok _ => exact Does.pure (stable a) holds
    | error e => exact Does.raise stableE holds
  | error e =>
    refine Program.Sat.andThen (raised t inv holds) inv fun result u inv holds => ?_
    cases result with
    | ok _ => exact Does.raise stableE holds
    | error e => exact Does.raise stableE holds

theorem Does.mono {A B : α → State → Prop} {F : State → Prop} {p : Change α}
    (does : Does info sessionId requests id p A E s)
    (weaker : ∀ a t, Inv info sessionId requests t → A a t → B a t) (raises : ∀ t, E t → F t) :
    Does info sessionId requests id p B F s := by
  refine Program.Sat.mono does fun result t inv holds => ?_
  cases result with
  | ok a => exact weaker a t inv holds
  | error e => exact raises t holds

private theorem quiet_does {A : State → Prop} {op : Op} {B : Ans op → State → Prop} (still : quiet op = true)
    (stable : Stable sessionId id A) (stables : ∀ a, Stable sessionId id (B a))
    (answers : ∀ t env, Inv info sessionId requests t → A t → B (t.tables.answer env op) t)
    (raises : ∀ t, A t → creating id t = true ∨ E t) (stableE : Stable sessionId id E) (holds : A s) :
    Does info sessionId requests id (call op) (fun a t => A t ∧ B a t) E s := by
  refine Program.Sat.perform (A := A) ?_ ?_ holds ?_
  · exact fun s t moved => stable s t moved.1 moved.2
  · intro answer s t moved ends
    cases answer with
    | ok a => exact ⟨stable s t moved.1 moved.2 ends.1,stables a s t moved.1 moved.2 ends.2⟩
    | error e => exact stableE s t moved.1 moved.2 ends
  · intro t env u answer inv here served
    obtain ⟨allowed,served⟩ := service_cases served
    obtain ⟨tables,same⟩ : Steady sessionId t.tables u.tables ∧ u = { t with tables := u.tables } :=
      quiet_served still served
    have moved (i : ℕ) := Keeps.steady tables same i
    refine ⟨inv.same tables same,fun i _ => moved i,?_⟩
    have other : sessionLock op = false := by
      cases op with
      | lock cache key | unLock cache key => cases cache with
        | session => cases still
        | _ => rfl
      | _ => rfl
    rcases serve_cases other served with ⟨-,⟨e,rfl⟩,failed⟩ | ⟨-,rfl,-⟩
    · refine stableE t u (moved id).1 (moved id).2 ((raises t here).resolve_left fun busy => ?_)
      have works : env.fails = false := by
        simp only [orderly,busy,Bool.not_true,Bool.false_or,Bool.and_eq_true,Bool.not_eq_true'] at allowed
        exact allowed.1
      have granted : t.tables.refuses op = false := by
        cases op with
        | saveSession row => cases still
        | _ => rfl
      rw [works,granted] at failed
      simp at failed
    · exact ⟨stable t u (moved id).1 (moved id).2 here,
        stables _ t u (moved id).1 (moved id).2 (answers t env inv here)⟩

end

section
variable {info : MetaInfo} {sessionId : String} {requests : ℕ → Request} {id : ℕ}
variable {s t : State} {A E : State → Prop} {before : List (Option String)} {known : Prop}

theorem IsSession.keeps {found : ErSessionMeta} (moved : Keeps sessionId id s t) (is : IsSession s found) :
    IsSession t found := by
  obtain ⟨creation,member,sessionId,name,tag,total,processors⟩ := is
  refine ⟨creation,moved.creations member,sessionId,name,tag,total,fun processor inside => ?_⟩
  obtain ⟨row,added,same⟩ := processors processor inside
  exact ⟨row,moved.added added,same⟩

variable (sessionId requests id) in
/-- What a look at the session has found, behind the looks before; a session that was known
is found. -/
structure Seen (known : Prop) (before : List (Option String)) (found : Option ErSessionMeta) (s : State) : Prop where
  unknown : found = none → ¬ known
  looked : s.looked id = before ++ [found.map ErSessionMeta.status]
  missing : found = none → (s.locks sessionId).owner = some id → s.creations = []
  session : ∀ erSessionMeta ∈ found, IsSession s erSessionMeta
  status : ∀ erSessionMeta ∈ found, erSessionMeta.status = "NEW" ∨ erSessionMeta.status ∈ later
  line : before = [none] → (requests id).carriesNew ∨ ∀ erSessionMeta ∈ found, erSessionMeta.status = "NEW"

theorem Seen.stable (found : Option ErSessionMeta) : Stable sessionId id (Seen sessionId requests id known before found) := by
  intro s t moved same seen
  refine ⟨seen.unknown,same.trans seen.looked,fun none owner => ?_,fun r is => (seen.session r is).keeps moved,seen.status,seen.line⟩
  have mine := moved.owner.mp owner
  exact (moved.own (.inl mine)).1.trans (seen.missing none mine)

private theorem Seen.reread {found again : ErSessionMeta} (seen : Seen sessionId requests id known before (some found) s)
    (id_ : again.id = found.id) (name : again.name = found.name) (tag : again.tag = found.tag)
    (total : again.totalProcCount = found.totalProcCount) (status : again.status = found.status)
    (processors : ∀ processor ∈ again.processors, ∃ row ∈ s.added, row.processorId = processor.id) :
    Seen sessionId requests id known before (some again) s := by
  have only {p : ErSessionMeta → Prop} (holds : p again) : ∀ r ∈ some again, p r := by
    intro r is
    cases is
    exact holds
  refine ⟨nofun,by rw [seen.looked]; simp [status],nofun,only ?_,only ?_,fun line => (seen.line line).imp_right fun new => only ?_⟩
  · obtain ⟨creation,member,i,n,t,c,-⟩ := seen.session found rfl
    exact ⟨creation,member,id_.trans i,name.trans n,tag.trans t,total.trans c,processors⟩
  · rw [status]
    exact seen.status found rfl
  · rw [status]
    exact new found rfl

theorem Inv.found (inv : Inv info sessionId requests s) {row : SessionMain} (found : s.tables.session sessionId = some row) :
    IsSession s row.toErSessionMeta ∧ (row.status = "NEW" ∨ row.status ∈ later) := by
  obtain ⟨creation,member⟩ : ∃ creation, creation ∈ s.creations := by
    apply List.exists_mem_of_ne_nil
    intro none
    rw [(inv.absent none).1] at found
    cases found
  obtain ⟨-,sessionMeta,eggs,progress⟩ := inv.created creation member
  obtain ⟨other,found',stored⟩ := progress.stored
  cases found'.symm.trans found
  refine ⟨⟨creation,member,stored.sessionId,stored.name,stored.tag,stored.totalProcCount,?_⟩,stored.status⟩
  exact fun processor inside => absurd inside List.not_mem_nil

theorem Inv.none (inv : Inv info sessionId requests s) (missing : s.tables.session sessionId = none) : s.creations = [] := by
  by_contra some_creation
  obtain ⟨creation,member⟩ := List.exists_mem_of_ne_nil _ some_creation
  obtain ⟨-,sessionMeta,eggs,progress⟩ := inv.created creation member
  obtain ⟨row,found,-⟩ := progress.stored
  rw [missing] at found
  cases found

def Blind (id : ℕ) (A : State → Prop) : Prop := ∀ s key, A s → A (s.look id key)

private theorem look_does (stable : Stable sessionId id A) (blind : Blind id A) (raises : ∀ t, A t → E t)
    (knows : ∀ t, A t → known → t.creations ≠ []) (stableE : Stable sessionId id E) (holds : A s) (looked : s.looked id = before) :
    Does info sessionId requests id (call (.getSession sessionId))
      (fun row t => A t ∧ Seen sessionId requests id known before (row.map SessionMain.toErSessionMeta) t) E s := by
  refine Program.Sat.perform (A := fun t => A t ∧ t.looked id = before) ?_ ?_ ⟨holds,looked⟩ ?_
  · exact fun s t moved here => ⟨stable s t moved.1 moved.2 here.1,moved.2.trans here.2⟩
  · intro answer s t moved ends
    cases answer with
    | ok a => exact ⟨stable s t moved.1 moved.2 ends.1,Seen.stable _ s t moved.1 moved.2 ends.2⟩
    | error e => exact stableE s t moved.1 moved.2 ends
  · intro t env u answer inv here served
    obtain ⟨allowed,served⟩ := service_cases served
    rcases look_served served with ⟨rfl,e,rfl⟩ | ⟨rfl,rfl⟩
    · exact ⟨inv,fun i _ => ⟨.refl i _,rfl⟩,raises u here.1⟩
    · refine ⟨inv.look sessionId,fun i other => ⟨.look sessionId i,look_others sessionId other⟩,blind t sessionId here.1,?_⟩
      have looked : (t.look id sessionId).looked id = before ++ [(t.tables.session sessionId).map SessionMain.status] := by
        simp [State.look,here.2]
      have line (is : before = [none]) : (requests id).carriesNew ∨ ∀ row ∈ t.tables.session sessionId, row.status = "NEW" := by
        rw [is] at here
        simpa [orderly,here.2] using (Bool.and_eq_true_iff.mp allowed).2
      cases found : t.tables.session sessionId with
      | none =>
        rw [found] at looked
        exact ⟨fun _ is => knows t here.1 is (inv.none found),looked,fun _ _ => inv.none found,nofun,nofun,fun _ => .inr nofun⟩
      | some row =>
        rw [found] at looked line
        obtain ⟨session,status⟩ := inv.found found
        have only {p : ErSessionMeta → Prop} (holds : p row.toErSessionMeta) :
            ∀ r ∈ (some row).map SessionMain.toErSessionMeta, p r := by
          intro r is
          cases is
          exact holds
        exact ⟨nofun,looked,nofun,only session,only status,fun is => (line is).imp_right fun new => only (new row rfl)⟩

end

section
variable {info : MetaInfo} {sessionId : String} {requests : ℕ → Request} {id : ℕ}
variable {s t : State} {A E : State → Prop} {before : List (Option String)} {known : Prop}

def Listed (processors : List ErProcessor) (s : State) : Prop :=
  ∀ processor ∈ processors, ∃ row ∈ s.added, row.processorId = processor.id

theorem Listed.stable (processors : List ErProcessor) : Stable sessionId id (Listed processors) := by
  intro s t moved _ listed processor inside
  obtain ⟨row,added,same⟩ := listed processor inside
  exact ⟨row,moved.added added,same⟩

private theorem Inv.listed_rows (inv : Inv info sessionId requests s) :
    Listed ((s.tables.processorsOf sessionId).map SessionProcessor.toErProcessor) s := by
  intro processor inside
  obtain ⟨row,member,rfl⟩ := List.mem_map.mp inside
  have there := List.mem_map_of_mem (f := SessionProcessor.processorId) member
  rw [inv.listed] at there
  exact List.mem_map.mp there

private theorem withResources_does {processors : List ErProcessor} (stable : Stable sessionId id A)
    (raises : ∀ t, A t → E t) (stableE : Stable sessionId id E) (inv : Inv info sessionId requests s) (holds : A s)
    (listed : Listed processors s) :
    Does info sessionId requests id (withResources processors) (fun processors t => A t ∧ Listed processors t) E s := by
  induction processors generalizing s A with
  | nil => exact .pure (stable.and (Listed.stable [])) ⟨holds,listed⟩
  | cons processor rest ih =>
    have asserted : Stable sessionId id fun t => A t ∧ Listed (processor :: rest) t := stable.and (Listed.stable _)
    refine (quiet_does (B := fun _ _ => True) rfl asserted (fun _ => .const True) (fun _ _ _ _ => trivial)
      (fun t here => .inr (raises t here.1)) stableE ⟨holds,listed⟩).bind inv stableE fun rows t inv here => ?_
    obtain ⟨⟨holds,listed⟩,-⟩ := here
    obtain ⟨one,others⟩ := List.forall_mem_cons.mp listed
    have own : Stable sessionId id fun t => A t ∧ Listed [processor] t := stable.and (Listed.stable _)
    refine (ih own (fun t here => raises t here.1) inv ⟨holds,List.forall_mem_singleton.mpr one⟩ others).bind inv stableE
      fun processors t inv here => ?_
    obtain ⟨⟨holds,one⟩,others⟩ := here
    exact .pure (stable.and (Listed.stable _)) ⟨holds,List.forall_mem_cons.mpr ⟨one processor List.mem_cons_self,others⟩⟩

private theorem getProcessorBySession_does (withResource : Bool) (stable : Stable sessionId id A)
    (raises : ∀ t, A t → E t) (stableE : Stable sessionId id E) (inv : Inv info sessionId requests s) (holds : A s) :
    Does info sessionId requests id (getProcessorBySession sessionId withResource)
      (fun processors t => A t ∧ Listed processors t) E s := by
  refine (quiet_does (B := fun _ _ => True) rfl stable (fun _ => .const True) (fun _ _ _ _ => trivial)
    (fun t here => .inr (raises t here)) stableE holds).bind inv stableE fun _ t inv here => ?_
  have rows : Does info sessionId requests id (call (.listProcessors sessionId))
      (fun rows t => A t ∧ Listed (rows.map SessionProcessor.toErProcessor) t) E t :=
    quiet_does rfl stable (fun rows => Listed.stable _) (fun t env inv _ => inv.listed_rows)
      (fun t here => .inr (raises t here)) stableE here.1
  refine rows.bind inv stableE fun rows t inv here => ?_
  cases withResource with
  | true => exact withResources_does stable raises stableE inv here.1 here.2
  | false => exact .pure (stable.and (Listed.stable _)) here

theorem getSession_does (withProcessor withOption withResource : Bool) (stable : Stable sessionId id A)
    (blind : Blind id A) (raises : ∀ t, A t → E t) (knows : ∀ t, A t → known → t.creations ≠ [])
    (stableE : Stable sessionId id E)
    (inv : Inv info sessionId requests s) (holds : A s) (looked : s.looked id = before) :
    Does info sessionId requests id (getSession sessionId withProcessor withOption withResource)
      (fun found t => A t ∧ Seen sessionId requests id known before found t) E s := by
  refine (look_does stable blind raises knows stableE holds looked).bind inv stableE fun found t inv here => ?_
  obtain ⟨holds,seen⟩ := here
  cases found with
  | none => exact .pure (stable.and (Seen.stable none)) ⟨holds,seen⟩
  | some row =>
    -- what is read of the options plays no part
    have last (processors : List ErProcessor) {t : State} (inv : Inv info sessionId requests t)
        (here : (A t ∧ Seen sessionId requests id known before (some row.toErSessionMeta) t) ∧ Listed processors t)
        (options : Options) : Does info sessionId requests id
          (Pure.pure (some { row.toErSessionMeta with processors := processors, options := options }))
          (fun found t => A t ∧ Seen sessionId requests id known before found t) E t :=
      .pure (stable.and (Seen.stable _)) ⟨here.1.1,here.1.2.reread rfl rfl rfl rfl rfl here.2⟩
    have asserted : Stable sessionId id fun t => A t ∧ Seen sessionId requests id known before (some row.toErSessionMeta) t :=
      stable.and (Seen.stable _)
    have options (processors : List ErProcessor) {t : State} (inv : Inv info sessionId requests t)
        (here : (A t ∧ Seen sessionId requests id known before (some row.toErSessionMeta) t) ∧ Listed processors t) :
        Does info sessionId requests id (do
            let options ← if withOption then call (.listOptions sessionId) else pure []
            pure (some { row.toErSessionMeta with processors := processors, options := options.foldl putOption [] }))
          (fun found t => A t ∧ Seen sessionId requests id known before found t) E t := by
      cases withOption with
      | true =>
        refine (quiet_does (B := fun _ _ => True) rfl (asserted.and (Listed.stable processors)) (fun _ => .const True)
          (fun _ _ _ _ => trivial) (fun t here => .inr (raises t here.1.1)) stableE here).bind inv stableE
          fun options t inv here => ?_
        exact last processors inv here.1 _
      | false => exact last processors inv here _
    cases withProcessor with
    | true =>
      exact (getProcessorBySession_does withResource asserted (fun t here => raises t here.1) stableE inv
        ⟨holds,seen⟩).bind inv stableE fun processors t inv here => options processors inv here
    | false => exact options [] inv ⟨⟨holds,seen⟩,fun processor inside => absurd inside List.not_mem_nil⟩

end

section
variable {info : MetaInfo} {sessionId : String} {requests : ℕ → Request} {id : ℕ}
variable {s t : State} {A E : State → Prop} {creation : Creation} {done : List SessionProcessor}

def Holder (sessionId : String) (id : ℕ) (s : State) : Prop := (s.locks sessionId).owner = some id

theorem Holder.stable : Stable sessionId id (Holder sessionId id) := fun _ _ moved _ => moved.owner.mpr

def Apart (id : ℕ) (s : State) : Prop := ∀ creation ∈ s.creations, creation.request ≠ id

theorem Apart.stable : Stable sessionId id (Apart id) :=
  fun _ _ moved _ apart creation member mine => apart creation (moved.others creation member mine) mine

theorem Apart.idle (apart : Apart id s) : Idle id s := fun creation member mine => absurd mine (apart creation member)

theorem Idle.stable : Stable sessionId id (Idle id) := by
  intro s t moved _ idle creation member mine
  have before := moved.others creation member mine
  rw [(moved.own (.inr ⟨creation,before,mine⟩)).2.2]
  exact idle creation before mine

theorem lock_does (stable : Stable sessionId id A) (kept : ∀ s lock, A s → A (s.setLock sessionId lock))
    (stableE : Stable sessionId id E) (idle : ∀ t, A t → Idle id t) (holds : A s) :
    Does info sessionId requests id (call (.lock .session sessionId)) (fun _ t => A t ∧ Holder sessionId id t) E s := by
  refine Program.Sat.perform (A := A) ?_ ?_ holds ?_
  · exact fun s t moved => stable s t moved.1 moved.2
  · intro answer s t moved ends
    cases answer with
    | ok a => exact stable.and Holder.stable s t moved.1 moved.2 ends
    | error e => exact stableE s t moved.1 moved.2 ends
  · intro t env u answer inv here served
    obtain ⟨-,served⟩ := service_cases served
    obtain ⟨inv',guaranteed,-⟩ := harmless_step rfl inv (idle t here) served
    obtain ⟨lock,locked,rfl,rfl⟩ := lock_served served
    refine ⟨inv',guaranteed,kept t lock here,?_⟩
    simpa [Holder,State.setLock] using (ReentrantLock.lock_owner locked).2

theorem unlock_does (stable : Stable sessionId id A) (kept : ∀ s lock, A s → A (s.setLock sessionId lock))
    (idle : ∀ t, A t → Idle id t) (holds : A s) :
    Does info sessionId requests id (call (.unLock .session sessionId)) (fun _ => A) A s := by
  refine Program.Sat.perform (A := A) ?_ ?_ holds ?_
  · exact fun s t moved => stable s t moved.1 moved.2
  · intro answer s t moved ends
    cases answer with
    | ok a => exact stable s t moved.1 moved.2 ends
    | error e => exact stable s t moved.1 moved.2 ends
  · intro t env u answer inv here served
    obtain ⟨-,served⟩ := service_cases served
    obtain ⟨inv',guaranteed,-⟩ := harmless_step rfl inv (idle t here) served
    refine ⟨inv',guaranteed,?_⟩
    rcases unlock_served served with ⟨rfl,-⟩ | ⟨lock,-,rfl,-⟩
    · cases answer with
      | ok a => exact here
      | error e => exact here
    · cases answer with
      | ok a => exact kept t lock here
      | error e => exact kept t lock here

private theorem nodes_does (stable : Stable sessionId id A)
    (kept : ∀ (s : State) nodes, A s → A { s with nodes := Function.update s.nodes id nodes })
    (raises : ∀ t, A t → E t) (stableE : Stable sessionId id E) (holds : A s) :
    Does info sessionId requests id (call .listHealthyNodes) (fun nodes t => A t ∧ t.nodes id = nodes) E s := by
  refine Program.Sat.perform (A := A) ?_ ?_ holds ?_
  · exact fun s t moved => stable s t moved.1 moved.2
  · intro answer s t moved ends
    cases answer with
    | ok a => exact ⟨stable s t moved.1 moved.2 ends.1,moved.1.nodes.trans ends.2⟩
    | error e => exact stableE s t moved.1 moved.2 ends
  · intro t env u answer inv here served
    obtain ⟨-,served⟩ := service_cases served
    rcases serve_cases rfl served with ⟨rfl,⟨e,rfl⟩,-⟩ | ⟨-,rfl,rfl⟩
    · exact ⟨inv,fun i _ => ⟨.refl i _,rfl⟩,raises u here⟩
    · refine ⟨inv.steady (.refl _) rfl rfl rfl fun _ _ _ holder => holder,fun i other => ⟨?_,rfl⟩,kept t env.nodes here,?_⟩
      · exact ⟨Iff.rfl,Function.update_of_ne other _ _,List.Subset.refl _,fun _ member _ => member,List.Subset.refl _,
          fun _ => ⟨rfl,rfl,rfl⟩,rfl⟩
      · simp [State.note,Tables.answer]

/-- The creation so far: the row is inserted and so are these processors. -/
structure Adding (sessionId : String) (id : ℕ) (creation : Creation) (done : List SessionProcessor) (s : State) : Prop where
  owner : (s.locks sessionId).owner = some id
  creations : s.creations = [creation]
  mine : creation.request = id
  added : s.added = done
  unsent : s.started = []

theorem Adding.stable : Stable sessionId id (Adding sessionId id creation done) := by
  intro s t moved _ adding
  obtain ⟨creations,added,started⟩ := moved.own (.inl adding.owner)
  exact ⟨moved.owner.mpr adding.owner,creations.trans adding.creations,adding.mine,added.trans adding.added,
    started.trans adding.unsent⟩

theorem Adding.creating (adding : Adding sessionId id creation done s) : creating id s = true := by
  simp [SessionCreation.creating,adding.unsent,adding.creations,adding.mine]

theorem Adding.progress (inv : Inv info sessionId requests s) (adding : Adding sessionId id creation done s) :
    ∃ sessionMeta eggs, Progress info sessionId requests creation sessionMeta eggs s :=
  (inv.created creation (by rw [adding.creations]; exact List.mem_singleton_self _)).2

theorem Keeps.insert {i : ℕ} (other : i ≠ id) (owner : (s.locks sessionId).owner = some id)
    (mine : ∀ creation ∈ s.creations, creation.request = id) (locks : t.locks = s.locks) (nodes : t.nodes = s.nodes)
    (looked : t.looked = s.looked) (creations : s.creations ⊆ t.creations)
    (new : ∀ creation ∈ t.creations, creation.request = id) (added : s.added ⊆ t.added)
    (resources : t.tables.processorResources = s.tables.processorResources) :
    Keeps sessionId i s t ∧ t.looked i = s.looked i := by
  refine ⟨⟨by rw [locks],by rw [nodes],creations,fun creation member is => ?_,added,?_,by rw [resources]⟩,by rw [looked]⟩
  · exact absurd (is.symm.trans (new creation member)) other
  · rintro (holder | ⟨creation,member,is⟩)
    · exact absurd (Option.some.inj (holder.symm.trans owner)) other
    · exact absurd (is.symm.trans (mine creation member)) other

end

section
variable {info : MetaInfo} {sessionId : String} {requests : ℕ → Request} {id : ℕ}
variable {s t : State} {E : State → Prop} {creation : Creation} {done : List SessionProcessor}

/-- Under the lock no session has been found, and the healthy nodes are read. -/
structure Vacant (sessionId : String) (id : ℕ) (serverNodes : List ErServerNode) (s : State) : Prop where
  owner : (s.locks sessionId).owner = some id
  creations : s.creations = []
  nodes : s.nodes id = serverNodes

theorem Vacant.stable {serverNodes : List ErServerNode} : Stable sessionId id (Vacant sessionId id serverNodes) := by
  intro s t moved _ vacant
  exact ⟨moved.owner.mpr vacant.owner,(moved.own (.inl vacant.owner)).1.trans vacant.creations,
    moved.nodes.trans vacant.nodes⟩

private theorem insert_does {serverNodes : List ErServerNode} {sessionMeta : ErSessionMeta} {eggs : Int} {row : SessionMain}
    (made : Creation.Made info requests ⟨id,serverNodes,row⟩ sessionMeta eggs) (is : row.sessionId = sessionId)
    (stableE : Stable sessionId id E) (raises : ∀ t, Vacant sessionId id serverNodes t → E t)
    (vacant : Vacant sessionId id serverNodes s) :
    Does info sessionId requests id (call (.saveSession row))
      (fun _ => Adding sessionId id ⟨id,serverNodes,row⟩ []) E s := by
  refine Program.Sat.perform (A := Vacant sessionId id serverNodes) ?_ ?_ vacant ?_
  · exact fun s t moved => Vacant.stable s t moved.1 moved.2
  · intro answer s t moved ends
    cases answer with
    | ok a => exact Adding.stable s t moved.1 moved.2 ends
    | error e => exact stableE s t moved.1 moved.2 ends
  · intro t env u answer inv here served
    obtain ⟨-,served⟩ := service_cases served
    rcases serve_cases rfl served with ⟨rfl,⟨e,rfl⟩,-⟩ | ⟨-,rfl,rfl⟩
    · exact ⟨inv,fun i _ => ⟨.refl i _,rfl⟩,raises u here⟩
    obtain ⟨missing,empty,unsent⟩ := inv.absent here.creations
    have creations : t.creations ++ [⟨id,t.nodes id,row⟩] = [⟨id,serverNodes,row⟩] := by
      rw [here.creations,here.nodes,List.nil_append]
    have found : (t.tables.write (.saveSession row)).session sessionId = some row := by
      rw [Tables.session,Tables.write,List.find?_append,← Tables.session,missing]
      simp [is]
    refine ⟨?_,fun i other => ?_,here.owner,creations,rfl,empty,unsent⟩
    · refine ⟨inv.ids,inv.resources,inv.listed,fun none => ?_,fun creation member => ?_⟩
      · rw [show t.creations ++ [⟨id,t.nodes id,row⟩] = [] from none] at creations
        cases creations
      · have only : creation = ⟨id,serverNodes,row⟩ := List.mem_singleton.mp (creations ▸ member)
        subst only
        refine ⟨creations,sessionMeta,eggs,is,⟨row,found,rfl,rfl,rfl,rfl,.inl ?_⟩,made,?_,.inr ⟨unsent,here.owner⟩⟩
        · exact congrArg SessionMain.status made.row
        · change t.added.map unnumbered <+: _
          rw [empty]
          exact List.nil_prefix
    · refine Keeps.insert other here.owner ?_ rfl rfl rfl ?_ ?_ (List.Subset.refl _) rfl
      · rw [here.creations]
        exact fun creation member => absurd member List.not_mem_nil
      · rw [here.creations]
        exact List.nil_subset _
      · intro creation member
        replace member : creation ∈ t.creations ++ [⟨id,t.nodes id,row⟩] := member
        rw [creations] at member
        rw [List.mem_singleton.mp member]

private theorem add_does {row : SessionProcessor} (is : row.sessionId = sessionId)
    (within : ∀ sessionMeta eggs, creation.Made info requests sessionMeta eggs →
      (done ++ [row]).map unnumbered <+: creation.rows sessionMeta eggs)
    (adding : Adding sessionId id creation done s) :
    Does info sessionId requests id (call (.saveProcessor row))
      (fun k t => Adding sessionId id creation (done ++ [{ row with processorId := k }]) t ∧
        t.tables.resourcesOf k = []) (fun _ => False) s := by
  refine Program.Sat.perform (A := Adding sessionId id creation done) ?_ ?_ adding ?_
  · exact fun s t moved => Adding.stable s t moved.1 moved.2
  · intro answer s t moved ends
    cases answer with
    | ok k =>
      refine ⟨Adding.stable s t moved.1 moved.2 ends.1,?_⟩
      have none := ends.2
      simp only [Tables.resourcesOf,List.filter_eq_nil_iff,decide_eq_true_eq] at none ⊢
      intro row member same
      have there := List.mem_map_of_mem (f := ProcessorResource.processorId) member
      rw [moved.1.resources] at there
      obtain ⟨other,inside,same'⟩ := List.mem_map.mp there
      exact none other inside (same'.trans same)
    | error e => exact ends
  · intro t env u answer inv here served
    obtain ⟨allowed,served⟩ := service_cases served
    have works : env.fails = false := by
      simp only [orderly,here.creating,Bool.not_true,Bool.false_or,Bool.and_eq_true,Bool.not_eq_true'] at allowed
      exact allowed.1
    rcases serve_cases rfl served with ⟨-,-,failed⟩ | ⟨-,rfl,rfl⟩
    · rw [works] at failed
      simp [Tables.refuses] at failed
    obtain ⟨sessionMeta,eggs,progress⟩ := here.progress inv
    have added : t.added ++ [{ row with processorId := (t.tables.nextId : Int) }] =
        done ++ [{ row with processorId := (t.tables.nextId : Int) }] := by rw [here.added]
    refine ⟨?_,fun i other => ?_,⟨here.owner,here.creations,here.mine,added,here.unsent⟩,?_⟩
    · refine ⟨fun other member => ?_,fun other member => ?_,?_,fun none => ?_,fun other member => ?_⟩
      · rcases List.mem_append.mp member with before | new
        · exact inv.ids other before
        · rw [List.mem_singleton.mp new]
          exact Int.natCast_nonneg _
      · have next : (t.tables.nextId : Int) < (t.tables.nextId + 1 : ℕ) := by omega
        exact Int.lt_trans (inv.resources other member) next
      · have rows : (t.tables.write (.saveProcessor row)).processorsOf sessionId =
            t.tables.processorsOf sessionId ++ [{ row with processorId := t.tables.nextId }] := by
          simp [Tables.processorsOf,Tables.write,List.filter_append,is]
        rw [rows,List.map_append,inv.listed]
        exact (List.map_append ..).symm
      · cases here.creations.symm.trans none
      · have only : other = creation := List.mem_singleton.mp (here.creations ▸ member)
        subst only
        refine ⟨here.creations,sessionMeta,eggs,progress.id,progress.stored,progress.made,?_,
          .inr ⟨here.unsent,here.mine ▸ here.owner⟩⟩
        have prefixed := within sessionMeta eggs progress.made
        change (t.added ++ [_]).map unnumbered <+: _
        rw [added]
        simpa [unnumbered] using prefixed
    · refine Keeps.insert other here.owner ?_ rfl rfl rfl (List.Subset.refl _) ?_ (List.subset_append_left _ _) rfl
      all_goals
        intro c member
        replace member : c ∈ t.creations := member
        rw [here.creations] at member
        rw [List.mem_singleton.mp member]
        exact here.mine
    · simp only [Tables.resourcesOf,List.filter_eq_nil_iff,decide_eq_true_eq]
      intro other member same
      have below := inv.resources other member
      rw [same] at below
      exact Int.lt_irrefl _ below

/-- The start command has been sent, after the last insertion. -/
structure Sent (id : ℕ) (creation : Creation) (done : List SessionProcessor) (session : ErSessionMeta) (s : State) : Prop where
  creations : s.creations = [creation]
  mine : creation.request = id
  added : s.added = done
  started : s.started = [⟨id,creation.serverNodes,session⟩]

theorem Sent.stable {session : ErSessionMeta} : Stable sessionId id (Sent id creation done session) := by
  intro s t moved _ sent
  obtain ⟨creations,added,started⟩ := moved.own (.inr ⟨creation,by simp [sent.creations],sent.mine⟩)
  exact ⟨creations.trans sent.creations,sent.mine,added.trans sent.added,started.trans sent.started⟩

private theorem start_does {session : ErSessionMeta} (is : session.id = creation.row.sessionId)
    (processors : session.processors.map ErProcessor.toRow = done)
    (whole : ∀ sessionMeta eggs, creation.Made info requests sessionMeta eggs →
      done.map unnumbered = creation.rows sessionMeta eggs)
    (adding : Adding sessionId id creation done s) :
    Does info sessionId requests id (call (.submit (.startContainers creation.serverNodes session)))
      (fun _ => Sent id creation done session) (fun _ => False) s := by
  refine Program.Sat.perform (A := Adding sessionId id creation done) ?_ ?_ adding ?_
  · exact fun s t moved => Adding.stable s t moved.1 moved.2
  · intro answer s t moved ends
    cases answer with
    | ok a => exact Sent.stable s t moved.1 moved.2 ends
    | error e => exact ends
  · intro t env u answer inv here served
    obtain ⟨allowed,served⟩ := service_cases served
    have works : env.fails = false := by
      simp only [orderly,here.creating,Bool.not_true,Bool.false_or,Bool.and_eq_true,Bool.not_eq_true'] at allowed
      exact allowed.1
    rcases serve_cases rfl served with ⟨-,-,failed⟩ | ⟨-,rfl,rfl⟩
    · rw [works] at failed
      simp [Tables.refuses] at failed
    obtain ⟨sessionMeta,eggs,progress⟩ := here.progress inv
    have started : t.started ++ [⟨id,creation.serverNodes,session⟩] = [⟨id,creation.serverNodes,session⟩] := by
      rw [here.unsent,List.nil_append]
    refine ⟨?_,fun i other => ?_,here.creations,here.mine,here.added,started⟩
    · refine ⟨inv.ids,inv.resources,inv.listed,fun none => ?_,fun other member => ?_⟩
      · cases here.creations.symm.trans none
      · have only : other = creation := List.mem_singleton.mp (here.creations ▸ member)
        subst only
        refine ⟨here.creations,sessionMeta,eggs,progress.id,progress.stored,progress.made,progress.added,.inl ⟨?_,session,?_,is,?_⟩⟩
        · exact (congrArg (List.map unnumbered) here.added).trans (whole sessionMeta eggs progress.made)
        · rw [here.mine]
          exact started
        · exact processors.trans here.added.symm
    · refine Keeps.insert other here.owner ?_ rfl rfl rfl (List.Subset.refl _) ?_ (List.Subset.refl _) rfl
      all_goals
        intro c member
        replace member : c ∈ t.creations := member
        rw [here.creations] at member
        rw [List.mem_singleton.mp member]
        exact here.mine

end

section
variable {info : MetaInfo} {sessionId : String} {requests : ℕ → Request} {id : ℕ}
variable {s t : State} {A : State → Prop} {creation : Creation} {done : List SessionProcessor} {α : Type}

/-- Nothing is raised on. -/
abbrev Sure (info : MetaInfo) (sessionId : String) (requests : ℕ → Request) (id : ℕ) {α : Type} (p : Change α)
    (A : α → State → Prop) (s : State) : Prop := Does info sessionId requests id p A (fun _ => False) s

theorem Sure.bind {β : Type} {A : α → State → Prop} {B : β → State → Prop} {p : Change α} {f : α → Change β}
    (does : Sure info sessionId requests id p A s) (inv : Inv info sessionId requests s)
    (follows : ∀ a t, Inv info sessionId requests t → A a t → Sure info sessionId requests id (f a) B t) :
    Sure info sessionId requests id (p >>= f) B s :=
  Does.bind does inv (.const False) follows

theorem Sure.tryFinally {B : α → State → Prop} {p : Change α} {last : Change Unit}
    (does : Sure info sessionId requests id p B s) (inv : Inv info sessionId requests s)
    (stable : ∀ a, Stable sessionId id (B a))
    (follows : ∀ a t, Inv info sessionId requests t → B a t → Sure info sessionId requests id last (fun _ => B a) t) :
    Sure info sessionId requests id (p.tryFinally last) B s :=
  Does.tryFinally does inv stable (.const False) follows fun _ _ no => no.elim

private theorem busy_does {op : Op} (still : quiet op = true) (stable : Stable sessionId id A)
    (busy : ∀ t, A t → creating id t = true) (holds : A s) :
    Sure info sessionId requests id (call op) (fun _ => A) s :=
  (quiet_does (B := fun _ _ => True) still stable (fun _ => .const True) (fun _ _ _ _ => trivial)
    (fun t here => .inl (busy t here)) (.const False) holds).mono (fun _ _ _ here => here.1) fun _ no => no

private theorem submitPost_does {T : Type} {handler : StateHandler T} {result : Context × T}
    (still : quiet (.submit (handler.asynPostHandle result.1 result.2)) = true) (stable : Stable sessionId id A)
    (busy : ∀ t, A t → creating id t = true) (inv : Inv info sessionId requests s) (holds : A s) :
    Sure info sessionId requests id (AbstractStateMachine.submitPost handler result)
      (fun given t => A t ∧ given = result) s := by
  unfold AbstractStateMachine.submitPost
  split
  · exact (busy_does still stable busy holds).bind inv fun _ t inv here => .pure (stable.and (.const _)) ⟨here,rfl⟩
  · exact .pure (stable.and (.const _)) ⟨holds,rfl⟩

private theorem resource_does {context : Context} {data : ErProcessor} (stable : Stable sessionId id A)
    (busy : ∀ t, A t → creating id t = true) (bare : data.resources = [])
    (empty : ∀ t, A t → t.tables.resourcesOf data.id = []) (unbroken : context.isBreak = false)
    (inv : Inv info sessionId requests s) (holds : A s) :
    Sure info sessionId requests id (resourceStateMechine.changeStatus context data "init" "pre_allocated" false)
      (fun result t => A t ∧ result = ({ context with openAsynPostHandle := true },data)) s := by
  have quietly {op : Op} (still : quiet op = true) {t : State} (holds : A t) :
      Sure info sessionId requests id (call op) (fun _ => A) t := busy_does still stable busy holds
  have given (result : Context × ErProcessor) : Stable sessionId id fun t =>
      A t ∧ result = ({ context with openAsynPostHandle := true },data) := stable.and (.const _)
  refine Sure.tryFinally ?_ inv given fun result t inv here => ?_
  · refine (quietly rfl holds).bind inv fun _ t inv here => ?_
    have loaded : Sure info sessionId requests id (loadResources data) (fun loaded t => A t ∧ loaded = data) t := by
      rw [loadResources,if_pos bare]
      have rows : Sure info sessionId requests id (call (.listResources data.id)) (fun rows t => A t ∧ rows = []) t :=
        quiet_does rfl stable (fun _ => .const _) (fun t env _ here => empty t here) (fun t here => .inl (busy t here))
          (.const False) here
      refine rows.bind inv fun rows t inv here => .pure (stable.and (.const _)) ⟨here.1,?_⟩
      rw [here.2,List.map_nil,← bare]
    have line {t : State} (inv : Inv info sessionId requests t) (here : A t) :
        Sure info sessionId requests id (onStateLine data "init_pre_allocated") (fun _ => A) t := by
      refine (quietly rfl here).bind inv fun _ t inv here => ?_
      refine Sure.tryFinally ?_ inv (fun _ => stable) fun _ t inv here => quietly rfl here
      rw [bare]
      exact .pure stable here
    have handled : Sure info sessionId requests id
        (AbstractStateMachine.transactionHandle resourceStateHandler context data "init" "pre_allocated" false)
        (fun result t => A t ∧ result = ({ context with openAsynPostHandle := true },data)) t := by
      refine Sure.bind (A := fun result t => A t ∧ result = ({ context with openAsynPostHandle := true },data)) ?_ inv
        fun result t _ here => .pure (given result) here
      refine loaded.bind inv fun read t inv here => ?_
      obtain ⟨here,rfl⟩ := here
      exact (line inv here).bind inv fun _ t inv here => .pure (given _) ⟨here,rfl⟩
    have prepared : resourceStateHandler.prepare context data "init" "pre_allocated" = pure (context,data) := rfl
    change Sure info sessionId requests id
      (AbstractStateMachine.locked resourceStateHandler context data "init" "pre_allocated" false) _ t
    rw [AbstractStateMachine.locked,prepared,pure_bind,if_neg (by simp [unbroken])]
    refine handled.bind inv fun result t inv here => ?_
    obtain ⟨here,rfl⟩ := here
    exact submitPost_does rfl stable busy inv here
  · exact (quietly rfl here.1).mono (fun _ _ _ holds => ⟨holds,here.2⟩) fun _ no => no

end

section
variable {info : MetaInfo} {sessionId : String} {requests : ℕ → Request} {id : ℕ}
variable {s t : State} {creation : Creation} {done : List SessionProcessor} {context : Context}

/-- The context of a creation, with the nodes that it has read. -/
structure Carries (serverNodes : List ErServerNode) (context : Context) : Prop where
  unbroken : context.isBreak = false
  processorInDb : context.processorInDb = none
  serverNodes : context.serverNodes = serverNodes
  processorType : context.processorType = none

/-- A processor as `newProcessor` makes it. -/
structure Unstored (sessionId : String) (processor : ErProcessor) : Prop where
  id : processor.id = -1
  sessionId : processor.sessionId = sessionId
  beforeStatus : processor.beforeStatus = ""
  resources : processor.resources = []

private theorem bare_stable (k : Int) : Stable sessionId id fun s => s.tables.resourcesOf k = [] := by
  intro s t moved _ none
  simp only [Tables.resourcesOf,List.filter_eq_nil_iff,decide_eq_true_eq] at none ⊢
  intro row member same
  have there := List.mem_map_of_mem (f := ProcessorResource.processorId) member
  rw [moved.resources] at there
  obtain ⟨other,inside,same'⟩ := List.mem_map.mp there
  exact none other inside (same'.trans same)

/-- The processor of the id that the table has given, and the context for the next one. -/
def Inserted (sessionId : String) (id : ℕ) (creation : Creation) (done : List SessionProcessor)
    (serverNodes : List ErServerNode) (processor : ErProcessor) (result : Context × ErProcessor) (s : State) : Prop :=
  Adding sessionId id creation (done ++ [result.2.toRow]) s ∧ Carries serverNodes result.1 ∧
    unnumbered result.2.toRow = unnumbered processor.toRow

private theorem create_does {useResourceDispatch : Bool} {serverNodes : List ErServerNode} {processor : ErProcessor}
    (carries : Carries serverNodes context) (unstored : Unstored sessionId processor)
    (within : ∀ sessionMeta eggs, creation.Made info requests sessionMeta eggs →
      (done ++ [processor.toRow]).map unnumbered <+: creation.rows sessionMeta eggs)
    (inv : Inv info sessionId requests s) (adding : Adding sessionId id creation done s) :
    Sure info sessionId requests id ((processorCreateHandler useResourceDispatch).handle context processor "" "NEW")
      (Inserted sessionId id creation done serverNodes processor) s := by
  refine Sure.bind (add_does unstored.sessionId within adding) inv fun k t inv here => ?_
  obtain ⟨adding,empty⟩ := here
  have stable : Stable sessionId id fun t =>
      Adding sessionId id creation (done ++ [{ processor.toRow with processorId := k }]) t ∧ t.tables.resourcesOf k = [] :=
    Adding.stable.and (bare_stable k)
  have last (result : Context × ErProcessor) {t : State} (given : result.2 = { processor with id := k })
      (carries : Carries serverNodes result.1)
      (adding : Adding sessionId id creation (done ++ [{ processor.toRow with processorId := k }]) t) :
      Inserted sessionId id creation done serverNodes processor result t := by
    rw [Inserted,given]
    exact ⟨adding,carries,rfl⟩
  have bare : ({ processor with id := k } : ErProcessor).resources = [] := unstored.resources
  unfold changeResourceIfNeeded
  split
  · refine (resource_does stable (fun t here => here.1.creating) bare (fun t here => here.2)
      carries.unbroken inv ⟨adding,empty⟩).mono (fun result t _ here => ?_) fun _ no => no
    obtain ⟨⟨adding,-⟩,rfl⟩ := here
    exact last ({ context with openAsynPostHandle := true },{ processor with id := k }) rfl
      ⟨carries.unbroken,carries.processorInDb,carries.serverNodes,carries.processorType⟩ adding
  · refine Does.pure ?_ (last _ rfl carries adding)
    exact Adding.stable.and (.const _)

private theorem processor_does {useResourceDispatch : Bool} {serverNodes : List ErServerNode} {processor : ErProcessor}
    (carries : Carries serverNodes context) (unstored : Unstored sessionId processor)
    (within : ∀ sessionMeta eggs, creation.Made info requests sessionMeta eggs →
      (done ++ [processor.toRow]).map unnumbered <+: creation.rows sessionMeta eggs)
    (inv : Inv info sessionId requests s) (adding : Adding sessionId id creation done s) :
    Sure info sessionId requests id
      ((processorStateMachine useResourceDispatch).changeStatus context processor "" "NEW" false)
      (Inserted sessionId id creation done serverNodes processor) s := by
  have stored (result : Context × ErProcessor) : Stable sessionId id
      (Inserted sessionId id creation done serverNodes processor result) := Adding.stable.and (.const _)
  have quietly {op : Op} (still : quiet op = true) {done : List SessionProcessor} {t : State}
      (adding : Adding sessionId id creation done t) :
      Sure info sessionId requests id (call op) (fun _ => Adding sessionId id creation done) t :=
    busy_does still Adding.stable (fun t => Adding.creating) adding
  -- no processor has the id of a new one
  have missing : Sure info sessionId requests id (call (.getProcessor processor.id))
      (fun found t => Adding sessionId id creation done t ∧ found = none) s := by
    refine quiet_does rfl Adding.stable (fun _ => .const _) (fun t env inv _ => ?_) (fun t here => .inl here.creating)
      (.const False) adding
    rw [unstored.id]
    refine List.find?_eq_none.mpr fun row member => ?_
    have := inv.ids row member
    simp only [decide_eq_true_eq]
    omega
  have line : Sure info sessionId requests id
      ((processorStateMachine useResourceDispatch).buildStateChangeLine context processor "" "NEW")
      (fun built t => Adding sessionId id creation done t ∧ Carries serverNodes built.1.1 ∧ built.1.2 = processor ∧
        built.2 = "_NEW") s := by
    refine missing.bind inv fun found t inv here => ?_
    obtain ⟨adding,rfl⟩ := here
    refine .pure (Adding.stable.and (.const _)) ⟨adding,?_,?_,rfl⟩
    · exact ⟨carries.unbroken,carries.processorInDb,carries.serverNodes,carries.processorType⟩
    · have same := unstored.beforeStatus
      cases processor
      cases same
      rfl
  refine line.bind inv fun built t inv here => ?_
  obtain ⟨⟨context',processor'⟩,line'⟩ := built
  obtain ⟨adding,carries,same,is⟩ := here
  dsimp only at carries same is
  subst same is
  have handler : (processorStateMachine useResourceDispatch).handler "_NEW" =
      some (processorCreateHandler useResourceDispatch) := rfl
  dsimp only
  rw [handler]
  refine Sure.tryFinally ?_ inv stored fun result t inv here => ?_
  · refine (quietly rfl adding).bind inv fun _ t inv adding => ?_
    have prepared : (processorCreateHandler useResourceDispatch).prepare context' processor' "" "NEW" =
        pure (context',processor') := rfl
    rw [AbstractStateMachine.locked,prepared,pure_bind,if_neg (by simp [carries.unbroken])]
    refine Sure.bind (A := Inserted sessionId id creation done serverNodes processor') ?_ inv fun result t inv here => ?_
    · exact (create_does carries unstored within inv adding).bind inv fun result t _ here => .pure (stored result) here
    · refine (submitPost_does rfl Adding.stable (fun t => Adding.creating) inv here.1).mono (fun given t _ after => ?_)
        fun _ no => no
      obtain ⟨adding,rfl⟩ := after
      exact ⟨adding,here.2⟩
  · exact (quietly rfl here.1).mono (fun _ _ _ adding => ⟨adding,here.2⟩) fun _ no => no

private theorem changeEach_does {serverNodes : List ErServerNode} {processors : List ErProcessor}
    (carries : Carries serverNodes context) (unstored : ∀ processor ∈ processors, Unstored sessionId processor)
    (whole : ∀ sessionMeta eggs, creation.Made info requests sessionMeta eggs →
      (done ++ processors.map ErProcessor.toRow).map unnumbered = creation.rows sessionMeta eggs)
    (inv : Inv info sessionId requests s) (adding : Adding sessionId id creation done s) :
    Sure info sessionId requests id (changeEach info "NEW" context processors)
      (fun result t => Adding sessionId id creation (done ++ result.2.map ErProcessor.toRow) t ∧
        Carries serverNodes result.1 ∧
        (done ++ result.2.map ErProcessor.toRow).map unnumbered = (done ++ processors.map ErProcessor.toRow).map unnumbered)
      s := by
  induction processors generalizing s context done with
  | nil =>
    refine Does.pure (Adding.stable.and (.const _)) ⟨?_,carries,rfl⟩
    simpa using adding
  | cons processor rest ih =>
    obtain ⟨first,others⟩ := List.forall_mem_cons.mp unstored
    have within (sessionMeta : ErSessionMeta) (eggs : Int) (made : creation.Made info requests sessionMeta eggs) :
        (done ++ [processor.toRow]).map unnumbered <+: creation.rows sessionMeta eggs := by
      rw [← whole sessionMeta eggs made]
      exact ⟨(rest.map ErProcessor.toRow).map unnumbered,by simp⟩
    refine (processor_does carries first within inv adding).bind inv fun changed t inv here => ?_
    obtain ⟨adding,carries,same⟩ := here
    have renumbered : (done ++ [changed.2.toRow] ++ rest.map ErProcessor.toRow).map unnumbered =
        (done ++ (processor :: rest).map ErProcessor.toRow).map unnumbered := by simp [same]
    have rest_whole (sessionMeta : ErSessionMeta) (eggs : Int) (made : creation.Made info requests sessionMeta eggs) :
        (done ++ [changed.2.toRow] ++ rest.map ErProcessor.toRow).map unnumbered = creation.rows sessionMeta eggs :=
      renumbered.trans (whole sessionMeta eggs made)
    refine (ih carries others rest_whole inv adding).bind inv fun result t inv here => ?_
    obtain ⟨adding,carries,numbers⟩ := here
    refine Does.pure (Adding.stable.and (.const _)) ⟨?_,carries,?_⟩
    · simpa using adding
    · rw [← renumbered,← numbers]
      simp

private theorem saveOptions_does {options : Options} (inv : Inv info sessionId requests s)
    (adding : Adding sessionId id creation done s) :
    Sure info sessionId requests id (saveOptions sessionId options) (fun _ => Adding sessionId id creation done) s := by
  induction options generalizing s with
  | nil => exact .pure Adding.stable adding
  | cons option rest ih =>
    exact (busy_does rfl Adding.stable (fun t => Adding.creating) adding).bind inv fun _ t inv here => ih inv here

end

section
variable {info : MetaInfo} {sessionId : String} {requests : ℕ → Request} {id : ℕ}
variable {s t : State} {creation : Creation} {done : List SessionProcessor} {context : Context}
variable {before : List (Option String)} {data : ErSessionMeta}

/-- What a change to `NEW` answers: there is a session, and what is not `NEW` is it. -/
structure Answered (id : ℕ) (found : ErSessionMeta) (s : State) : Prop where
  idle : Idle id s
  some_creation : s.creations ≠ []
  session : found.status ≠ "NEW" → IsSession s found

theorem Answered.stable (found : ErSessionMeta) : Stable sessionId id (Answered id found) := by
  intro s t moved same answered
  refine ⟨Idle.stable s t moved same answered.idle,fun none => answered.some_creation ?_,fun old => ?_⟩
  · exact List.subset_nil.mp (none ▸ moved.creations)
  · exact (answered.session old).keeps moved

theorem Answered.setLock {found : ErSessionMeta} (answered : Answered id found s) (lock : ReentrantLock ℕ) :
    Answered id found (s.setLock sessionId lock) := ⟨answered.idle,answered.some_creation,answered.session⟩

theorem Answered.of_session {found : ErSessionMeta} (idle : Idle id s) (is : IsSession s found) : Answered id found s := by
  refine ⟨idle,fun none => ?_,fun _ => is⟩
  obtain ⟨creation,member,-⟩ := is
  rw [none] at member
  cases member

/-- The whole session is inserted and only the start command is left. -/
structure Ready (sessionId : String) (id : ℕ) (info : MetaInfo) (requests : ℕ → Request) (creation : Creation)
    (result : Context × ErSessionMeta) (s : State) : Prop where
  adding : Adding sessionId id creation (result.2.processors.map ErProcessor.toRow) s
  carries : Carries creation.serverNodes result.1
  opened : result.1.openAsynPostHandle = true
  id : result.2.id = creation.row.sessionId
  status : result.2.status = "NEW"
  whole : ∀ sessionMeta eggs, creation.Made info requests sessionMeta eggs →
    (result.2.processors.map ErProcessor.toRow).map unnumbered = creation.rows sessionMeta eggs

theorem Ready.stable (result : Context × ErSessionMeta) :
    Stable sessionId id (Ready sessionId id info requests creation result) :=
  fun s t moved same ready => ⟨Adding.stable s t moved same ready.adding,ready.carries,ready.opened,ready.id,ready.status,ready.whole⟩

theorem Creation.Made.unique {sessionMeta other : ErSessionMeta} {eggs eggs' : Int}
    (made : creation.Made info requests sessionMeta eggs) (made' : creation.Made info requests other eggs') :
    other = sessionMeta ∧ eggs' = eggs := by
  cases made'.request.symm.trans made.request
  exact ⟨rfl,Option.some.inj (made'.perNode.symm.trans made.perNode)⟩

private theorem newProcessors_eq {serverNodes : List ErServerNode} (carries : Carries serverNodes context) (eggs : Int) :
    newProcessors context { data with status := "NEW" } eggs =
      serverNodes.flatMap fun node => List.replicate eggs.toNat (newProcessor {} data node) := by
  have one (node : ErServerNode) : newProcessor context { data with status := "NEW" } node = newProcessor {} data node := by
    simp [newProcessor,carries.processorType]
  rw [newProcessors,if_pos (by simp [carries.processorType]),carries.serverNodes]
  simp only [one]

private theorem newProcessors_unstored {serverNodes : List ErServerNode} (is : data.id = sessionId)
    (carries : Carries serverNodes context) (eggs : Int) :
    ∀ processor ∈ newProcessors context { data with status := "NEW" } eggs, Unstored sessionId processor := by
  rw [newProcessors_eq carries]
  intro processor inside
  obtain ⟨node,-,copy⟩ := List.mem_flatMap.mp inside
  rw [List.eq_of_mem_replicate copy]
  exact ⟨rfl,is,rfl,rfl⟩

private theorem insert_session_does {serverNodes : List ErServerNode} {eggs : Int}
    (mine : requests id = .getOrCreate data) (is : data.id = sessionId) (carries : Carries serverNodes context)
    (perNode : processorsPerNode info data.options = some eggs)
    (inv : Inv info sessionId requests s) (vacant : Vacant sessionId id serverNodes s) :
    Does info sessionId requests id (do
        let erSessionMeta : ErSessionMeta :=
          { data with status := "NEW", processors := newProcessors context { data with status := "NEW" } eggs }
        call (.saveSession (newSessionMain erSessionMeta "NEW"))
        let inserted ← doInserSession info context erSessionMeta
        pure ({ inserted.1 with openAsynPostHandle := true },inserted.2))
      (fun result t => ∃ row, Ready sessionId id info requests ⟨id,serverNodes,row⟩ result t) (Idle id) s := by
  let processors := newProcessors context { data with status := "NEW" } eggs
  let row := newSessionMain { data with status := "NEW", processors := processors } "NEW"
  have rows : processors.map ErProcessor.toRow = Creation.rows ⟨id,serverNodes,row⟩ data eggs := by
    change (newProcessors context _ eggs).map ErProcessor.toRow = _
    rw [newProcessors_eq carries,List.map_flatMap,Creation.rows]
    simp only [List.map_replicate]
  have made : Creation.Made info requests ⟨id,serverNodes,row⟩ data eggs := by
    refine ⟨mine,perNode,?_⟩
    rw [← rows,List.length_map]
    rfl
  have unnumbered_rows : (processors.map ErProcessor.toRow).map unnumbered = processors.map ErProcessor.toRow := by
    rw [List.map_map]
    refine List.map_congr_left fun processor inside => ?_
    have := (newProcessors_unstored is carries eggs processor inside).id
    simp [unnumbered,ErProcessor.toRow,this]
  have whole (sessionMeta : ErSessionMeta) (eggs' : Int) (other : Creation.Made info requests ⟨id,serverNodes,row⟩ sessionMeta eggs') :
      ([] ++ processors.map ErProcessor.toRow).map unnumbered = Creation.rows ⟨id,serverNodes,row⟩ sessionMeta eggs' := by
    obtain ⟨rfl,rfl⟩ := made.unique other
    rw [List.nil_append,unnumbered_rows,rows]
  refine Does.bind (insert_does made is Idle.stable (fun t vacant => ?_) vacant) inv Idle.stable fun _ t inv adding => ?_
  · exact Apart.idle fun creation member => by simp [vacant.creations] at member
  have inserted : Sure info sessionId requests id
      (doInserSession info context { data with status := "NEW", processors := processors })
      (fun result t => Adding sessionId id ⟨id,serverNodes,row⟩ (result.2.processors.map ErProcessor.toRow) t ∧
        Carries serverNodes result.1 ∧ result.2.id = data.id ∧ result.2.status = "NEW" ∧
        (result.2.processors.map ErProcessor.toRow).map unnumbered = (processors.map ErProcessor.toRow).map unnumbered) t := by
    have options : Sure info sessionId requests id (saveOptions data.id data.options)
        (fun _ => Adding sessionId id ⟨id,serverNodes,row⟩ []) t := by
      rw [is]
      exact saveOptions_does inv adding
    refine options.bind inv fun _ t inv adding => ?_
    have each := changeEach_does carries (newProcessors_unstored is carries eggs) whole inv adding
    refine each.bind inv fun result t inv here => ?_
    obtain ⟨adding,carries,numbers⟩ := here
    exact Does.pure (Adding.stable.and (.const _)) ⟨by simpa using adding,carries,rfl,rfl,by simpa using numbers⟩
  have ready : Sure info sessionId requests id (do
        let inserted ← doInserSession info context { data with status := "NEW", processors := processors }
        pure ({ inserted.1 with openAsynPostHandle := true },inserted.2))
      (Ready sessionId id info requests ⟨id,serverNodes,row⟩) t := by
    refine inserted.bind inv fun result t inv here => ?_
    obtain ⟨adding,carries,id_,status,numbers⟩ := here
    refine Does.pure (Ready.stable _) ⟨adding,?_,rfl,id_,status,fun sessionMeta eggs' other => ?_⟩
    · exact ⟨carries.unbroken,carries.processorInDb,carries.serverNodes,carries.processorType⟩
    · exact numbers.trans (whole sessionMeta eggs' other)
  exact ready.mono (fun _ _ _ ready => ⟨row,ready⟩) fun _ no => no.elim

/-- A context that `getOrCreateSession` has not used yet. -/
structure Unused (context : Context) : Prop where
  unbroken : context.isBreak = false
  closed : context.openAsynPostHandle = false
  processorInDb : context.processorInDb = none
  processorType : context.processorType = none

/-- What the handler of a creation answers: a session that it has found, or its own. -/
def Handled (info : MetaInfo) (sessionId : String) (requests : ℕ → Request) (id : ℕ)
    (result : Context × ErSessionMeta) (s : State) : Prop :=
  result.1.openAsynPostHandle = false ∧ Answered id result.2 s ∨
    ∃ creation, Ready sessionId id info requests creation result s

theorem Handled.stable (result : Context × ErSessionMeta) :
    Stable sessionId id (Handled info sessionId requests id result) := by
  intro s t moved same handled
  rcases handled with ⟨closed,answered⟩ | ⟨creation,ready⟩
  · exact .inl ⟨closed,Answered.stable _ s t moved same answered⟩
  · exact .inr ⟨creation,Ready.stable _ s t moved same ready⟩

private theorem create_handle_does {nodes : List ErServerNode} (mine : requests id = .getOrCreate data) (is : data.id = sessionId)
    (unused : Unused context) (inv : Inv info sessionId requests s)
    (apart : Apart id s) (holder : Holder sessionId id s) (read : s.nodes id = nodes) :
    Does info sessionId requests id
      ((sessionCreateHandler info).handle { context with serverNodes := nodes } data "" "NEW")
      (Handled info sessionId requests id) (Idle id) s := by
  have carries : Carries nodes { context with serverNodes := nodes } :=
    ⟨unused.unbroken,unused.processorInDb,rfl,unused.processorType⟩
  subst is
  have nodes_stable : Stable data.id id fun t => t.nodes id = nodes := fun s t moved _ read => moved.nodes.trans read
  have stable : Stable data.id id fun t => Apart id t ∧ Holder data.id id t ∧ t.nodes id = nodes :=
    Apart.stable.and (Holder.stable.and nodes_stable)
  have found : Does info data.id requests id (getSession data.id true true false)
      (fun found t => (Apart id t ∧ Holder data.id id t ∧ t.nodes id = nodes) ∧
        Seen data.id requests id False (s.looked id) found t) (Idle id) s :=
    getSession_does true true false stable (fun _ _ here => here) (fun t here => here.1.idle) (fun _ _ no => no.elim)
      Idle.stable inv ⟨apart,holder,read⟩ rfl
  refine Does.bind found inv Idle.stable fun found t inv here => ?_
  obtain ⟨⟨apart,holder,read⟩,seen⟩ := here
  cases found with
  | some sessionInDb =>
    exact Does.pure (Handled.stable _) (.inl ⟨unused.closed,.of_session apart.idle (seen.session sessionInDb rfl)⟩)
  | none =>
    have vacant : Vacant data.id id nodes t := ⟨holder,seen.missing rfl holder,read⟩
    cases builds : builtSession info { context with serverNodes := nodes } { data with status := "NEW" } with
    | none =>
      obtain ⟨e,raises⟩ := buildSession_none builds
      dsimp only
      rw [raises]
      exact Does.raise Idle.stable apart.idle
    | some built =>
      dsimp only
      rw [buildSession_some builds,pure_bind]
      unfold builtSession at builds
      split at builds
      · cases builds
      obtain ⟨eggs,perNode,rfl⟩ := Option.map_eq_some_iff.mp builds
      exact (insert_session_does mine rfl carries perNode inv vacant).mono (fun _ _ _ ready =>
        .inr (ready.elim fun row ready => ⟨_,ready⟩)) fun _ idle => idle

theorem create_locked_does (mine : requests id = .getOrCreate data) (is : data.id = sessionId) (unused : Unused context)
    (inv : Inv info sessionId requests s) (apart : Apart id s) (holder : Holder sessionId id s) :
    Does info sessionId requests id
      (AbstractStateMachine.locked (sessionCreateHandler info) context data "" "NEW" false)
      (fun result => Answered id result.2) (Idle id) s := by
  have stable : Stable sessionId id fun t => Apart id t ∧ Holder sessionId id t := Apart.stable.and Holder.stable
  have nodes : Does info sessionId requests id (call .listHealthyNodes)
      (fun nodes t => (Apart id t ∧ Holder sessionId id t) ∧ t.nodes id = nodes) (Idle id) s :=
    nodes_does stable (fun _ _ here => here) (fun t here => here.1.idle) Idle.stable ⟨apart,holder⟩
  have prepared : Does info sessionId requests id ((sessionCreateHandler info).prepare context data "" "NEW")
      (fun prepared t => (Apart id t ∧ Holder sessionId id t) ∧
        ∃ nodes, t.nodes id = nodes ∧ prepared = ({ context with serverNodes := nodes },data)) (Idle id) s := by
    refine nodes.bind inv Idle.stable fun nodes t inv here => Does.pure ?_ ⟨here.1,nodes,here.2,rfl⟩
    refine stable.and fun s t moved _ holds => ?_
    obtain ⟨nodes,read,is⟩ := holds
    exact ⟨nodes,moved.nodes.trans read,is⟩
  refine prepared.bind inv Idle.stable fun prepared t inv here => ?_
  obtain ⟨⟨apart,holder⟩,nodes,read,rfl⟩ := here
  rw [if_neg (by simp [unused.unbroken])]
  have handled : Does info sessionId requests id
      (AbstractStateMachine.transactionHandle (sessionCreateHandler info) { context with serverNodes := nodes } data "" "NEW" false)
      (Handled info sessionId requests id) (Idle id) t :=
    (create_handle_does mine is unused inv apart holder read).bind inv Idle.stable fun result t _ here =>
      .pure (Handled.stable result) here
  refine handled.bind inv Idle.stable fun result t inv here => ?_
  rcases here with ⟨closed,answered⟩ | ⟨creation,ready⟩
  · rw [AbstractStateMachine.submitPost,closed,Bool.and_false,if_neg (by simp)]
    exact Does.pure (Answered.stable _) answered
  · rw [AbstractStateMachine.submitPost,ready.opened,ready.carries.unbroken,if_pos (by simp)]
    have task : (sessionCreateHandler info).asynPostHandle result.1 result.2 =
        .startContainers creation.serverNodes result.2 := by
      change startContainers result.1 result.2 = _
      rw [startContainers,if_neg (by simp [ready.carries.processorType]),ready.carries.serverNodes]
    rw [task]
    have sent := start_does ready.id rfl ready.whole ready.adding
    refine Does.bind (sent.mono (fun _ _ _ sent => sent) fun _ no => no.elim) inv Idle.stable fun _ t inv sent => ?_
    refine Does.pure (Answered.stable _) ⟨?_,?_,fun old => absurd ready.status old⟩
    · intro _ _ _ none
      rw [sent.started] at none
      cases none
    · rw [sent.creations]
      exact List.cons_ne_nil _ _

end

end Eggroll.Cluster.SessionCreation
