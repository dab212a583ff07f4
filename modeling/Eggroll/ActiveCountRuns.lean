import Mathlib.Data.List.Nodup
import Mathlib.Data.List.Perm.Subperm
import Eggroll.ActiveCount

/-! What the reports and the tasks of a session keep up among each other, and that the count
converges where tasks store their counts in the order in which they have read. -/
namespace Eggroll.Cluster.ActiveCount
open Library
open Program hiding call

def running (rows : List SessionProcessor) : List Int :=
  (rows.filter fun row => row.status = "RUNNING").map SessionProcessor.processorId

def State.running (s : State) (sessionId : String) : List Int := ActiveCount.running (s.tables.processorsOf sessionId)

def State.ids (s : State) (sessionId : String) : List Int :=
  (s.tables.processorsOf sessionId).map SessionProcessor.processorId

def State.readers (s : State) : List ℕ := s.counted.map Prod.fst

/-- A task that has been given to the pool is for a running processor of the session. -/
def Launched (sessionId : String) (s : State) (task : Option ErProcessor × String) : Prop :=
  task.2 = sessionId ∧ ∃ processorInDb, task.1 = some processorInDb ∧ processorInDb.sessionId = sessionId ∧
    processorInDb.id ∈ s.running sessionId

/-- The stored count is that of a task that has stored it, and of none a smaller one. -/
structure Stored (s : State) (activeProcCount : Option Int) : Prop where
  counted : ∃ entry ∈ s.counted, activeProcCount = some (ActiveCount.running entry.2).length
  latest : ∀ entry ∈ s.counted, entry.1 ∈ s.written →
    ∀ count ∈ activeProcCount, ((ActiveCount.running entry.2).length : Int) ≤ count

structure Inv (sessionId : String) (s : State) : Prop where
  some_ : s.ids sessionId ≠ []
  unique : (s.tables.processors.map SessionProcessor.processorId).Nodup
  statuses : ∀ row ∈ s.tables.processorsOf sessionId, row.status = "NEW" ∨ row.status = "RUNNING"
  session : ∃ row, s.tables.session sessionId = some row ∧ row.status ≠ "" ∧
    (row.status = "NEW" ∨ ∃ k, 2 * k + 1 ∈ s.requested) ∧ (s.written ≠ [] → Stored s row.activeProcCount)
  submitted : ∀ task ∈ s.submitted, Launched sessionId s task
  readers : s.readers.Nodup ∧ ∀ id ∈ s.readers, ∃ k, k < s.submitted.length ∧ id = 2 * k + 1
  counted : ∀ entry ∈ s.counted, entry.2.map SessionProcessor.processorId = s.ids sessionId ∧
    ActiveCount.running entry.2 ⊆ s.running sessionId
  sorted : s.counted.Pairwise fun a b => ActiveCount.running a.2 ⊆ ActiveCount.running b.2
  written : s.written ⊆ s.readers

/-- What every step does at most. -/
structure Moves (sessionId : String) (s t : State) : Prop where
  ids : t.ids sessionId = s.ids sessionId
  running : s.running sessionId ⊆ t.running sessionId
  submitted : s.submitted <+: t.submitted
  counted : s.counted <+: t.counted
  written : s.written ⊆ t.written
  requested : s.requested ⊆ t.requested

theorem Moves.refl (sessionId : String) (s : State) : Moves sessionId s s :=
  ⟨rfl,List.Subset.refl _,List.prefix_rfl,List.prefix_rfl,List.Subset.refl _,List.Subset.refl _⟩

theorem Moves.trans {sessionId : String} {s t u : State} (first : Moves sessionId s t) (second : Moves sessionId t u) :
    Moves sessionId s u :=
  ⟨second.ids.trans first.ids,List.Subset.trans first.running second.running,first.submitted.trans second.submitted,
    first.counted.trans second.counted,List.Subset.trans first.written second.written,
    List.Subset.trans first.requested second.requested⟩

/-- The rely of a request: nobody else reads the rows in its name. -/
structure Relies (sessionId : String) (id : ℕ) (s t : State) : Prop where
  moves : Moves sessionId s t
  own : id ∈ t.readers → id ∈ s.readers

structure Guarantees (sessionId : String) (id : ℕ) (s t : State) : Prop where
  moves : Moves sessionId s t
  others : ∀ other ∈ t.readers, other ≠ id → other ∈ s.readers

def contract (sessionId : String) (id : ℕ) : Contract State where
  invariant := Inv sessionId
  rely := Relies sessionId id
  guarantee := Guarantees sessionId id
  refl s := ⟨.refl sessionId s,fun there => there⟩
  trans first second := ⟨first.moves.trans second.moves,fun there => first.own (second.own there)⟩

theorem fit (sessionId : String) : Pool.Fit (Inv sessionId) (contract sessionId) fun id s => id ∉ s.readers where
  same _ := rfl
  others other _ _ guaranteed := ⟨guaranteed.moves,fun there => guaranteed.others _ there other⟩
  fresh relied idle there := idle (relied.own there)

section
variable {sessionId : String} {id : ℕ} {s t : State} {op : Op} {env : Env}

private theorem orderly_works (allowed : orderly id s op env = true) (odd : id % 2 = 1) : env.fails = false := by
  unfold orderly at allowed
  exact of_decide_eq_true (Bool.and_eq_true_iff.mp allowed).1 odd

theorem serve_cases {answer : Except Failure (Ans op)} (served : service id s op env = some (t,answer)) :
    (t = s ∧ (id % 2 = 1 → s.tables.refuses op = true) ∧ ∃ e, answer = .error e) ∨
      (orderly id s op env = true ∧ t = { s.note id op with tables := s.tables.write op } ∧
        answer = .ok (s.tables.answer env op)) := by
  unfold service Service.restrict at served
  split at served
  case isFalse => cases served
  case isTrue allowed =>
    unfold State.serve at served
    cases fails : (if env.fails then Tables.failure op else none) with
    | some e =>
      rw [Tables.serve,fails] at served
      cases served
      refine .inl ⟨rfl,fun odd => ?_,_,rfl⟩
      rw [orderly_works allowed odd] at fails
      cases fails
    | none =>
      cases refused : s.tables.refuses op with
      | true =>
        rw [Tables.serve,fails,refused] at served
        cases served
        exact .inl ⟨rfl,fun _ => rfl,_,rfl⟩
      | false =>
        rw [Tables.serve,fails,refused] at served
        cases served
        exact .inr ⟨allowed,rfl,rfl⟩

/-- The calls that leave the rows of sessions and processors and the history alone. -/
def plain : Op → Bool
  | .lock .session _ | .listProcessors _ | .saveSession _ | .updateSession _ _ | .saveProcessor _
  | .updateProcessor _ _ | .submit (.updateActiveCount _ _) => false
  | _ => true

private theorem note_plain (id : ℕ) (s : State) (still : plain op = true) :
    { s.note id op with tables := s.tables.write op } = { s with tables := s.tables.write op } ∧
      (s.tables.write op).sessions = s.tables.sessions ∧ (s.tables.write op).processors = s.tables.processors := by
  cases op with
  | lock cache key => cases cache with
    | session => cases still
    | _ => exact ⟨rfl,rfl,rfl⟩
  | submit task => cases task with
    | updateActiveCount => cases still
    | _ => exact ⟨rfl,rfl,rfl⟩
  | listProcessors | saveSession | updateSession | saveProcessor | updateProcessor => cases still
  | _ => exact ⟨rfl,rfl,rfl⟩

theorem Inv.of_same (inv : Inv sessionId s) {tables : Tables} (sessions : tables.sessions = s.tables.sessions)
    (processors : tables.processors = s.tables.processors) : Inv sessionId { s with tables := tables } := by
  have rows : tables.processorsOf sessionId = s.tables.processorsOf sessionId := by
    rw [Tables.processorsOf,processors,Tables.processorsOf]
  have main : tables.session sessionId = s.tables.session sessionId := by
    rw [Tables.session,sessions,Tables.session]
  have same : ({ s with tables := tables } : State).running sessionId = s.running sessionId ∧
      ({ s with tables := tables } : State).ids sessionId = s.ids sessionId := by
    rw [State.running,State.ids,rows,State.running,State.ids]
    exact ⟨rfl,rfl⟩
  obtain ⟨row,found,rest⟩ := inv.session
  refine ⟨by rw [same.2]; exact inv.some_,?_,?_,⟨row,main.trans found,rest.1,rest.2.1,fun some_ => ?_⟩,?_,inv.readers,?_,
    inv.sorted,inv.written⟩
  · rw [processors]
    exact inv.unique
  · rw [rows]
    exact inv.statuses
  · exact ⟨(rest.2.2 some_).counted,(rest.2.2 some_).latest⟩
  · intro task there
    obtain ⟨session,processorInDb,is,own,now⟩ := inv.submitted task there
    exact ⟨session,processorInDb,is,own,by rw [same.1]; exact now⟩
  · intro entry there
    rw [same.1,same.2]
    exact inv.counted entry there

theorem Guarantees.of_same {tables : Tables} (processors : tables.processors = s.tables.processors) :
    Guarantees sessionId id s { s with tables := tables } := by
  have rows : tables.processorsOf sessionId = s.tables.processorsOf sessionId := by
    rw [Tables.processorsOf,processors,Tables.processorsOf]
  refine ⟨⟨?_,?_,List.prefix_rfl,List.prefix_rfl,List.Subset.refl _,List.Subset.refl _⟩,fun _ there _ => there⟩
  · simp only [State.ids,rows]
  · simp only [State.running,rows]
    exact List.Subset.refl _

private theorem plain_does {A : State → Prop} {A' : Ans op → State → Prop} {E : State → Prop} (still : plain op = true)
    (stable : (contract sessionId id).Stable A) (stables : ∀ a, (contract sessionId id).Stable (A' a))
    (stableE : (contract sessionId id).Stable E)
    (gives : ∀ t env, Inv sessionId t → A t → A' (t.tables.answer env op) t) (falls : id % 2 = 1 ∨ ∀ t, A t → E t)
    (holds : A s) : Does (contract sessionId id) (service id) (call op) A' E s := by
  refine Does.perform stable stables stableE holds fun t env u answer inv here served => ?_
  rcases serve_cases served with ⟨rfl,refused,e,rfl⟩ | ⟨-,rfl,rfl⟩
  · refine ⟨inv,⟨.refl _ _,fun _ there _ => there⟩,?_⟩
    rcases falls with odd | falls
    · have never : u.tables.refuses op = false := by
        cases op with
        | saveSession => cases still
        | _ => rfl
      exact absurd (never.symm.trans (refused odd)) Bool.false_ne_true
    · exact falls u here
  · obtain ⟨noted,sessions,processors⟩ := note_plain id t still
    rw [noted]
    have moved : Guarantees sessionId id t { t with tables := t.tables.write op } := .of_same processors
    refine ⟨inv.of_same sessions processors,moved,?_⟩
    exact stables _ t _ ⟨moved.moves,fun there => there⟩ (gives t env inv here)

theorem stable_counted (entry : ℕ × List SessionProcessor) :
    (contract sessionId id).Stable fun t => entry ∈ t.counted := fun _ _ moved there => moved.moves.counted.subset there

private theorem stable_written : (contract sessionId id).Stable fun t => id ∈ t.written :=
  fun _ _ moved there => moved.moves.written there

private theorem stable_requested : (contract sessionId id).Stable fun t => ∃ k, 2 * k + 1 ∈ t.requested :=
  fun _ _ moved ⟨k,there⟩ => ⟨k,moved.moves.requested there⟩

private theorem stable_idle : (contract sessionId id).Stable fun t => id ∉ t.readers :=
  fun _ _ moved idle there => idle (moved.own there)

private theorem stable_running (processorId : Int) : (contract sessionId id).Stable fun t => processorId ∈ t.running sessionId :=
  fun _ _ moved there => moved.moves.running there

private theorem stable_ids (processorId : Int) : (contract sessionId id).Stable fun t => processorId ∈ t.ids sessionId := by
  intro s t moved there
  rw [moved.moves.ids]
  exact there

private theorem stable_submitted (k : ℕ) (task : Option ErProcessor × String) :
    (contract sessionId id).Stable fun t => t.submitted[k]? = some task := by
  intro s t moved there
  obtain ⟨more,is⟩ := moved.moves.submitted
  obtain ⟨within,-⟩ := List.getElem?_eq_some_iff.mp there
  rw [← is,List.getElem?_append_left within]
  exact there

def Runs (sessionId : String) (id : ℕ) (processorInDb : ErProcessor) (s : State) : Prop :=
  id % 2 = 1 ∧ s.submitted[id / 2]? = some (some processorInDb,sessionId)

theorem Runs.stable (processorInDb : ErProcessor) : (contract sessionId id).Stable (Runs sessionId id processorInDb) :=
  fun s t moved here => ⟨here.1,stable_submitted _ _ s t moved here.2⟩

/-- The rows that the task has read, with its own processor among those that run. -/
structure Counted (id : ℕ) (processorInDb : ErProcessor) (rows : List SessionProcessor) (s : State) : Prop where
  entry : (id,rows) ∈ s.counted
  own : processorInDb.id ∈ ActiveCount.running rows
  named : ∀ row ∈ rows, row.status ≠ ""

theorem Counted.stable (processorInDb : ErProcessor) (rows : List SessionProcessor) :
    (contract sessionId id).Stable (Counted id processorInDb rows) :=
  fun s t moved here => ⟨stable_counted _ s t moved here.entry,here.own,here.named⟩

theorem Inv.read (inv : Inv sessionId s) {k : ℕ} (within : k < s.submitted.length) (own : id = 2 * k + 1)
    (idle : id ∉ s.readers) :
    Inv sessionId { s with counted := s.counted ++ [(id,s.tables.processorsOf sessionId)] } := by
  have readers : ({ s with counted := s.counted ++ [(id,s.tables.processorsOf sessionId)] } : State).readers =
      s.readers ++ [id] := by
    rw [State.readers,List.map_append]
    rfl
  obtain ⟨row,found,named,status,stored⟩ := inv.session
  refine ⟨inv.some_,inv.unique,inv.statuses,⟨row,found,named,status,fun some_ => ?_⟩,inv.submitted,?_,?_,?_,?_⟩
  · obtain ⟨⟨entry,there,is⟩,latest⟩ := stored some_
    refine ⟨⟨entry,List.mem_append_left _ there,is⟩,fun entry there wrote => ?_⟩
    rcases List.mem_append.mp there with old | new
    · exact latest entry old wrote
    · rw [List.mem_singleton.mp new] at wrote
      exact absurd (inv.written wrote) idle
  · rw [readers]
    refine ⟨?_,fun reader there => ?_⟩
    · exact List.nodup_append.mpr ⟨inv.readers.1,List.pairwise_singleton _ _,
        fun _ old _ new same => idle (List.mem_singleton.mp new ▸ same ▸ old)⟩
    · rcases List.mem_append.mp there with old | new
      · exact inv.readers.2 reader old
      · exact ⟨k,within,(List.mem_singleton.mp new).trans own⟩
  · intro entry there
    rcases List.mem_append.mp there with old | new
    · exact inv.counted entry old
    · rw [List.mem_singleton.mp new]
      exact ⟨rfl,List.Subset.refl _⟩
  · refine List.pairwise_append.mpr ⟨inv.sorted,List.pairwise_singleton _ _,fun entry old last new => ?_⟩
    rw [List.mem_singleton.mp new]
    exact (inv.counted entry old).2
  · rw [readers]
    exact List.subset_append_of_subset_left _ inv.written

theorem read_does {processorInDb : ErProcessor} {E : State → Prop} (stableE : (contract sessionId id).Stable E)
    (holds : Runs sessionId id processorInDb s ∧ id ∉ s.readers) :
    Does (contract sessionId id) (service id) (call (.listProcessors sessionId))
      (fun rows t => Runs sessionId id processorInDb t ∧ Counted id processorInDb rows t) E s := by
  refine Does.perform ((Runs.stable processorInDb).and stable_idle)
    (fun rows => (Runs.stable processorInDb).and (Counted.stable processorInDb rows)) stableE holds
    fun t env u answer inv here served => ?_
  obtain ⟨⟨odd,task⟩,idle⟩ := here
  rcases serve_cases served with ⟨-,refused,-⟩ | ⟨-,rfl,rfl⟩
  · exact absurd (refused odd) Bool.false_ne_true
  · obtain ⟨within,is⟩ := List.getElem?_eq_some_iff.mp task
    have noted : { t.note id (.listProcessors sessionId) with tables := t.tables.write (.listProcessors sessionId) } =
        { t with counted := t.counted ++ [(id,t.tables.processorsOf sessionId)] } := by
      rw [State.note,if_neg (show id ∉ t.counted.map Prod.fst from idle)]
      rfl
    obtain ⟨-,other,given,-,now⟩ := inv.submitted _ (List.mem_of_getElem? task)
    cases given
    rw [noted]
    refine ⟨inv.read within (by omega) idle,⟨?_,?_⟩,⟨odd,task⟩,?_⟩
    · exact ⟨rfl,List.Subset.refl _,List.prefix_rfl,List.prefix_append _ _,List.Subset.refl _,List.Subset.refl _⟩
    · intro reader there other
      rw [State.readers,List.map_append] at there
      rcases List.mem_append.mp there with old | new
      · exact old
      · exact absurd (List.mem_singleton.mp new) other
    · refine ⟨List.mem_append_right _ (List.mem_singleton_self _),now,fun row member empty => ?_⟩
      have := inv.statuses row member
      rw [empty] at this
      revert this
      decide

theorem ids_nodup (inv : Inv sessionId s) : (s.ids sessionId).Nodup :=
  (List.filter_sublist.map _).nodup inv.unique

private theorem running_sublist (rows : List SessionProcessor) :
    (running rows).Sublist (rows.map SessionProcessor.processorId) := List.filter_sublist.map _

private theorem before_of_not_after {β : Type} {R : ℕ × β → ℕ × β → Prop} {entries : List (ℕ × β)} (sorted : entries.Pairwise R)
    (once : (entries.map Prod.fst).Nodup) {a b : ℕ × β} (there : a ∈ entries) (mine : b ∈ entries)
    (not_after : a.1 ∉ ((entries.map Prod.fst).dropWhile (· ≠ b.1)).tail) : a = b ∨ R a b := by
  induction entries with
  | nil => cases there
  | cons first rest ih =>
    obtain ⟨below,sorted⟩ := List.pairwise_cons.mp sorted
    rw [List.map_cons,List.nodup_cons] at once
    rw [List.map_cons] at not_after
    by_cases same : first.1 = b.1
    · have is : b = first := by
        rcases List.mem_cons.mp mine with rfl | later
        · rfl
        · exact absurd (same ▸ List.mem_map_of_mem later) once.1
      rw [List.dropWhile_cons_of_neg (by simpa using same)] at not_after
      rcases List.mem_cons.mp there with rfl | later
      · exact .inl is.symm
      · exact absurd (List.mem_map_of_mem later) not_after
    · have later : b ∈ rest := by
        rcases List.mem_cons.mp mine with rfl | later
        · exact absurd rfl same
        · exact later
      rw [List.dropWhile_cons_of_pos (by simpa using same)] at not_after
      rcases List.mem_cons.mp there with rfl | there
      · exact .inr (below b later)
      · exact ih sorted once.2 there later not_after

theorem count_le (inv : Inv sessionId s) {entry mine : ℕ × List SessionProcessor} (there : entry ∈ s.counted)
    (here : mine ∈ s.counted) (not_later : entry.1 ∉ readLater s mine.1) :
    (running entry.2).length ≤ (running mine.2).length := by
  rcases before_of_not_after inv.sorted inv.readers.1 there here not_later with rfl | sub
  · exact Nat.le_refl _
  · have once : (running entry.2).Nodup := by
      refine (running_sublist entry.2).nodup ?_
      rw [(inv.counted entry there).1]
      exact ids_nodup inv
    exact (List.subperm_of_subset once sub).length_le

def countPatch (rows : List SessionProcessor) : SessionPatch where
  activeProcCount := some ((running rows).length : ℕ)

theorem Inv.write (inv : Inv sessionId s) {rows : List SessionProcessor} (mine : (id,rows) ∈ s.counted)
    (ordered : ∀ other ∈ readLater s id, other ∉ s.written) :
    Inv sessionId { s with
      tables := s.tables.write (.updateSession sessionId (countPatch rows))
      written := s.written ++ [id] } := by
  obtain ⟨row,found,named,status,stored⟩ := inv.session
  have updated : (s.tables.write (.updateSession sessionId (countPatch rows))).session sessionId =
      some ((countPatch rows).apply row) := by
    rw [session_update,found,Option.map_some,if_pos (session_spec found).2]
  refine ⟨inv.some_,inv.unique,inv.statuses,⟨_,updated,named,status,fun _ => ⟨⟨_,mine,rfl⟩,?_⟩⟩,inv.submitted,inv.readers,
    inv.counted,inv.sorted,?_⟩
  · intro entry there wrote count is
    cases is
    rcases List.mem_append.mp wrote with old | new
    · exact Int.ofNat_le.mpr (count_le inv there mine fun later => ordered _ later old)
    · have same : entry = (id,rows) := List.inj_on_of_nodup_map inv.readers.1 there mine (List.mem_singleton.mp new)
      subst same
      exact Int.le_refl _
  · refine List.append_subset.mpr ⟨inv.written,?_⟩
    rintro reader new
    rw [List.mem_singleton.mp new]
    exact List.mem_map_of_mem mine

def Wrote (sessionId : String) (id : ℕ) (processorInDb : ErProcessor) (rows : List SessionProcessor) (s : State) : Prop :=
  (Runs sessionId id processorInDb s ∧ Counted id processorInDb rows s) ∧ id ∈ s.written

theorem Wrote.stable (processorInDb : ErProcessor) (rows : List SessionProcessor) :
    (contract sessionId id).Stable (Wrote sessionId id processorInDb rows) :=
  ((Runs.stable processorInDb).and (Counted.stable processorInDb rows)).and stable_written

private theorem write_does {processorInDb : ErProcessor} {rows : List SessionProcessor}
    (holds : Runs sessionId id processorInDb s ∧ Counted id processorInDb rows s) :
    Does (contract sessionId id) (service id) (call (.updateSession sessionId (countPatch rows)))
      (fun _ => Wrote sessionId id processorInDb rows) (fun _ => False) s := by
  refine Does.perform ((Runs.stable processorInDb).and (Counted.stable processorInDb rows))
    (fun _ => Wrote.stable processorInDb rows) (.const False) holds fun t env u answer inv here served => ?_
  obtain ⟨⟨odd,task⟩,counted⟩ := here
  rcases serve_cases served with ⟨-,refused,-⟩ | ⟨allowed,rfl,rfl⟩
  · exact absurd (refused odd) Bool.false_ne_true
  · have ordered : ∀ other ∈ readLater t id, other ∉ t.written := by
      unfold orderly at allowed
      exact of_decide_eq_true (Bool.and_eq_true_iff.mp allowed).2 rfl
    refine ⟨inv.write counted.entry ordered,⟨?_,fun _ there _ => there⟩,
      ⟨⟨odd,task⟩,⟨counted.entry,counted.own,counted.named⟩⟩,?_⟩
    · exact ⟨rfl,List.Subset.refl _,List.prefix_rfl,List.prefix_rfl,List.subset_append_left _ _,List.Subset.refl _⟩
    · exact List.mem_append_right _ (List.mem_singleton_self id)

theorem lock_does {A : State → Prop} (stable : (contract sessionId id).Stable A) (odd : id % 2 = 1) (key : String)
    (holds : A s) :
    Does (contract sessionId id) (service id) (call (.lock .session key)) (fun _ t => A t ∧ ∃ k, 2 * k + 1 ∈ t.requested)
      (fun _ => False) s := by
  refine Does.perform stable (fun _ => stable.and stable_requested) (.const False) holds
    fun t env u answer inv here served => ?_
  rcases serve_cases served with ⟨-,refused,-⟩ | ⟨-,rfl,rfl⟩
  · exact absurd (refused odd) Bool.false_ne_true
  · have moves : Moves sessionId t { t with requested := t.requested ++ [id] } :=
      ⟨rfl,List.Subset.refl _,List.prefix_rfl,List.prefix_rfl,List.Subset.refl _,List.subset_append_left _ _⟩
    obtain ⟨row,found,named,status,stored⟩ := inv.session
    have asked : ∃ k, 2 * k + 1 ∈ t.requested ++ [id] :=
      ⟨id / 2,List.mem_append_right _ (List.mem_singleton.mpr (by omega))⟩
    refine ⟨⟨inv.some_,inv.unique,inv.statuses,⟨row,found,named,.inr asked,fun some_ => ?_⟩,inv.submitted,inv.readers,
      inv.counted,
      inv.sorted,inv.written⟩,⟨moves,fun _ there _ => there⟩,stable t _ ⟨moves,fun there => there⟩ here,asked⟩
    exact ⟨(stored some_).counted,(stored some_).latest⟩

/-- The call of a change to `ACTIVE` that sets the status. -/
def activates : Op → Bool
  | .updateSession _ patch => patch = { status := some "ACTIVE" }
  | _ => false

theorem activate_served {other : String} {patch : SessionPatch} (inv : Inv sessionId s)
    (is : patch = { status := some "ACTIVE" }) (asked : ∃ k, 2 * k + 1 ∈ s.requested) :
    Inv sessionId { s with tables := s.tables.write (.updateSession other patch) } := by
  subst is
  obtain ⟨row,found,named,status,stored⟩ := inv.session
  have updated : (s.tables.write (.updateSession other { status := some "ACTIVE" })).session sessionId =
      some (if row.sessionId = other then SessionPatch.apply { status := some "ACTIVE" } row else row) := by
    rw [session_update,found]
    rfl
  refine ⟨inv.some_,inv.unique,inv.statuses,⟨_,updated,?_,.inr asked,fun some_ => ?_⟩,inv.submitted,inv.readers,inv.counted,
    inv.sorted,inv.written⟩
  · split
    · exact (by decide : "ACTIVE" ≠ "")
    · exact named
  · have same : (if row.sessionId = other then SessionPatch.apply { status := some "ACTIVE" } row
        else row).activeProcCount = row.activeProcCount := by
      split <;> rfl
    rw [same]
    exact ⟨(stored some_).counted,(stored some_).latest⟩

abbrev Activating (op : Op) : Prop := plain op = true ∨ activates op = true

private theorem activating_served {u : State} {answer : Except Failure (Ans op)} (allowed : Activating op)
    (inv : Inv sessionId s) (asked : ∃ k, 2 * k + 1 ∈ s.requested) (served : service id s op env = some (u,answer)) :
    Inv sessionId u ∧ Guarantees sessionId id s u ∧ Relies sessionId id s u := by
  rcases serve_cases served with ⟨rfl,-,-⟩ | ⟨-,rfl,-⟩
  · exact ⟨inv,⟨.refl _ _,fun _ there _ => there⟩,⟨.refl _ _,fun there => there⟩⟩
  · rcases allowed with still | sets
    · obtain ⟨noted,sessions,processors⟩ := note_plain id s still
      rw [noted]
      have moved : Guarantees sessionId id s { s with tables := s.tables.write op } := .of_same processors
      exact ⟨inv.of_same sessions processors,moved,moved.moves,fun there => there⟩
    · cases op with
      | updateSession other patch =>
        have is : patch = { status := some "ACTIVE" } := of_decide_eq_true sets
        have noted : { s.note id (.updateSession other patch) with tables := s.tables.write (.updateSession other patch) } =
            { s with tables := s.tables.write (.updateSession other patch) } := by
          rw [is]
          rfl
        rw [noted]
        have moved : Guarantees sessionId id s { s with tables := s.tables.write (.updateSession other patch) } :=
          .of_same rfl
        exact ⟨activate_served inv is asked,moved,moved.moves,fun there => there⟩
      | _ => cases sets

private theorem activating_does {α : Type} {A : State → Prop} {Q : α → Prop} {p : Change α}
    (makes : p.Makes Activating Q) (stable : (contract sessionId id).Stable A)
    (holds : A s ∧ ∃ k, 2 * k + 1 ∈ s.requested) :
    Does (contract sessionId id) (service id) p (fun _ t => A t ∧ ∃ k, 2 * k + 1 ∈ t.requested)
      (fun t => A t ∧ ∃ k, 2 * k + 1 ∈ t.requested) s := by
  refine (makes.sat (stable.and stable_requested) (fun op allowed t env u answer inv here served => ?_) holds).mono
    fun result t _ ends => ?_
  · obtain ⟨inv',guaranteed,relied⟩ := activating_served allowed inv here.2 served
    exact ⟨inv',guaranteed,(stable.and stable_requested) t u relied here⟩
  · cases result with
    | ok a => exact ends.1
    | error e => exact ends.1

def AllRunning (rows : List SessionProcessor) : Prop := ∀ row ∈ rows, row.status = "RUNNING"

private theorem filter_running (rows : List SessionProcessor) :
    ((rows.map SessionProcessor.toErProcessor).filter fun p => p.status = "RUNNING").length = (running rows).length := by
  rw [List.filter_map,List.length_map,running,List.length_map]
  rfl

private theorem running_all {rows : List SessionProcessor} (all : AllRunning rows) :
    running rows = rows.map SessionProcessor.processorId := by
  rw [running,List.filter_eq_self.mpr fun row member => decide_eq_true (all row member)]

def CountStored (sessionId : String) (id : ℕ) (processorInDb : ErProcessor) (ready : Bool) (s : State) : Prop :=
  ∃ rows, Wrote sessionId id processorInDb rows s ∧ (AllRunning rows → ready = true)

theorem CountStored.stable (processorInDb : ErProcessor) (ready : Bool) :
    (contract sessionId id).Stable (CountStored sessionId id processorInDb ready) :=
  fun s t moved ⟨rows,wrote,goes⟩ => ⟨rows,Wrote.stable processorInDb rows s t moved wrote,goes⟩

private theorem rows_does {processorInDb : ErProcessor} (inv : Inv sessionId s)
    (holds : Runs sessionId id processorInDb s ∧ id ∉ s.readers) :
    Does (contract sessionId id) (service id) (getProcessorBySession sessionId false)
      (fun processors t => ∃ rows, processors = rows.map SessionProcessor.toErProcessor ∧
        Runs sessionId id processorInDb t ∧ Counted id processorInDb rows t) (fun _ => False) s := by
  have idle : (contract sessionId id).Stable fun t => Runs sessionId id processorInDb t ∧ id ∉ t.readers :=
    (Runs.stable processorInDb).and stable_idle
  have first : Does (contract sessionId id) (service id) (call .listAllResources)
      (fun _ t => Runs sessionId id processorInDb t ∧ id ∉ t.readers) (fun _ => False) s :=
    plain_does rfl idle (fun _ => idle) (.const False) (fun _ _ _ here => here) (.inl holds.1.1) holds
  refine first.bind inv (.const False) fun _ t inv here => ?_
  refine (read_does (.const False) here).bind inv (.const False) fun rows t inv here => ?_
  refine .pure ?_ ⟨rows,rfl,here⟩
  rintro s t moved ⟨rows,is,runs,counted⟩
  exact ⟨rows,is,Runs.stable processorInDb s t moved runs,Counted.stable processorInDb rows s t moved counted⟩

private theorem count_does {processorInDb : ErProcessor} (inv : Inv sessionId s)
    (holds : Runs sessionId id processorInDb s ∧ id ∉ s.readers) :
    Does (contract sessionId id) (service id) (updateSessionMainActiveCount sessionId)
      (CountStored sessionId id processorInDb) (fun _ => False) s := by
  refine (rows_does inv holds).bind inv (.const False) fun processors t inv here => ?_
  obtain ⟨rows,rfl,here⟩ := here
  have named : ¬ ((rows.map SessionProcessor.toErProcessor).any fun p => p.status = "") = true := by
    intro unnamed
    obtain ⟨p,member,empty⟩ := List.any_eq_true.mp unnamed
    obtain ⟨row,there,rfl⟩ := List.mem_map.mp member
    exact here.2.named row there (of_decide_eq_true empty)
  rw [if_neg named,filter_running]
  refine (write_does here).bind inv (.const False) fun _ t inv wrote => ?_
  refine .pure (CountStored.stable processorInDb _) ⟨rows,wrote,fun all => ?_⟩
  have own : 0 < (running rows).length := List.length_pos_of_mem wrote.1.2.own
  have whole : (running rows).length = (rows.map SessionProcessor.toErProcessor).length := by
    rw [running_all all,List.length_map,List.length_map]
  rw [Bool.and_eq_true,decide_eq_true_eq,decide_eq_true_eq]
  omega

/-- A program that has stored its count and gets to the change, whatever the change comes to. -/
def Asked (sessionId : String) (id : ℕ) (processorInDb : ErProcessor) (rows : List SessionProcessor) (s : State) : Prop :=
  Wrote sessionId id processorInDb rows s ∧ ∃ k, 2 * k + 1 ∈ s.requested

theorem Asked.stable (processorInDb : ErProcessor) (rows : List SessionProcessor) :
    (contract sessionId id).Stable (Asked sessionId id processorInDb rows) :=
  (Wrote.stable processorInDb rows).and stable_requested

private theorem wrote_does {processorInDb : ErProcessor} {rows : List SessionProcessor} (still : plain op = true)
    (wrote : Wrote sessionId id processorInDb rows s) :
    Does (contract sessionId id) (service id) (call op) (fun _ => Wrote sessionId id processorInDb rows) (fun _ => False)
      s :=
  plain_does still (Wrote.stable processorInDb rows) (fun _ => Wrote.stable processorInDb rows) (.const False)
    (fun _ _ _ here => here) (.inl wrote.1.1.1) wrote

private theorem reread_does {processorInDb : ErProcessor} {rows : List SessionProcessor} (other : String)
    (wrote : Wrote sessionId id processorInDb rows s) :
    Does (contract sessionId id) (service id) (call (.listProcessors other))
      (fun _ => Wrote sessionId id processorInDb rows) (fun _ => False) s := by
  refine Does.perform (Wrote.stable processorInDb rows) (fun _ => Wrote.stable processorInDb rows) (.const False) wrote
    fun t env u answer inv here served => ?_
  rcases serve_cases served with ⟨-,refused,-⟩ | ⟨-,rfl,rfl⟩
  · exact absurd (refused here.1.1.1) Bool.false_ne_true
  · have noted : { t.note id (.listProcessors other) with tables := t.tables.write (.listProcessors other) } = t := by
      rw [State.note,if_pos (show id ∈ t.counted.map Prod.fst from inv.written here.2)]
      rfl
    rw [noted]
    exact ⟨inv,⟨.refl _ _,fun _ there _ => there⟩,here⟩

private theorem call_activating (one : Activating op) : (call op).Makes Activating fun _ => True := call_makes one

private theorem found_activates (other : String) :
    (getSession other false false false >>= notNull).Makes Activating fun _ => True := by
  rw [getSession_eq,bind_assoc]
  refine .bind (call_makes (.inl rfl)) fun main _ => ?_
  cases main with
  | none => exact .raise
  | some row => exact .pure trivial

private theorem active_making :
    MakingHandler Activating sessionActiveHandler (fun data => data.status = "ACTIVE") "NEW" "ACTIVE" where
  prepare _ data := .bind (found_activates data.id) fun _ _ => .pure rfl
  handle _ data is := by
    refine .bind (call_activating (.inr ?_)) fun _ _ => .bind (found_activates data.id) fun _ _ => .pure trivial
    rw [is]
    rfl
  submit _ _ := .inl rfl

private theorem line_does {processorInDb : ErProcessor} {rows : List SessionProcessor} {info : MetaInfo}
    {sessionMeta : ErSessionMeta} (inv : Inv sessionId s) (wrote : Wrote sessionId id processorInDb rows s) :
    Does (contract sessionId id) (service id)
      ((sessionStateMachine info).buildStateChangeLine {} sessionMeta "NEW" "ACTIVE")
      (fun built t => Wrote sessionId id processorInDb rows t ∧ built.2 = "NEW_ACTIVE") (fun _ => False) s := by
  have stable : (contract sessionId id).Stable (Wrote sessionId id processorInDb rows) := Wrote.stable processorInDb rows
  have read : Does (contract sessionId id) (service id) (getSession sessionMeta.id true false false)
      (fun _ => Wrote sessionId id processorInDb rows) (fun _ => False) s := by
    rw [getSession_eq]
    refine (wrote_does rfl wrote).bind inv (.const False) fun main t inv wrote => ?_
    cases main with
    | none => exact .pure stable wrote
    | some row =>
      refine Does.bind (A := fun _ => Wrote sessionId id processorInDb rows) ?_ inv (.const False) fun _ t inv wrote => ?_
      · refine (wrote_does rfl wrote).bind inv (.const False) fun _ t inv wrote => ?_
        exact (reread_does _ wrote).bind inv (.const False) fun _ t inv wrote => .pure stable wrote
      · exact .pure stable wrote
  refine read.bind inv (.const False) fun found t inv wrote => ?_
  exact .pure (stable.and (.const _)) ⟨wrote,rfl⟩

theorem change_does {processorInDb : ErProcessor} {rows : List SessionProcessor} {info : MetaInfo}
    {sessionMeta : ErSessionMeta} (inv : Inv sessionId s) (wrote : Wrote sessionId id processorInDb rows s) :
    Does (contract sessionId id) (service id)
      ((sessionStateMachine info).changeStatus {} sessionMeta "NEW" "ACTIVE" false)
      (fun _ => Asked sessionId id processorInDb rows) (Asked sessionId id processorInDb rows) s := by
  have stable : (contract sessionId id).Stable (Wrote sessionId id processorInDb rows) := Wrote.stable processorInDb rows
  have asked : (contract sessionId id).Stable (Asked sessionId id processorInDb rows) := Asked.stable processorInDb rows
  refine ((line_does inv wrote).mono (fun _ _ _ here => here) fun _ _ no => no.elim).bind inv asked
    fun built t inv here => ?_
  obtain ⟨wrote,is⟩ := here
  have handler : (sessionStateMachine info).handler built.2 = some sessionActiveHandler := by
    rw [is]
    rfl
  rw [handler]
  refine Does.tryFinally (A := fun _ => Asked sessionId id processorInDb rows)
    (E := Asked sessionId id processorInDb rows) ?_ inv (fun _ => asked) asked (fun _ t inv here => ?_) fun t inv here => ?_
  · refine ((lock_does stable wrote.1.1.1 _ wrote).mono (fun _ _ _ here => here) fun _ _ no => no.elim).bind inv asked
      fun _ t inv here => ?_
    exact activating_does (locked_makes active_making _) stable here
  · exact activating_does (call_activating (.inl rfl)) stable here
  · exact activating_does (call_activating (.inl rfl)) stable here

/-- The row of the session as a task finds it, which has been asked to change unless it is new. -/
def Found (sessionMeta : ErSessionMeta) (s : State) : Prop :=
  sessionMeta.status ≠ "" ∧ (sessionMeta.status = "NEW" ∨ ∃ k, 2 * k + 1 ∈ s.requested)

private theorem activate_does {processorInDb : ErProcessor} {rows : List SessionProcessor} (info : MetaInfo)
    (inv : Inv sessionId s) (wrote : Wrote sessionId id processorInDb rows s) :
    Does (contract sessionId id) (service id) (activate info sessionId)
      (fun _ => Asked sessionId id processorInDb rows) (Asked sessionId id processorInDb rows) s := by
  have stable : (contract sessionId id).Stable (Wrote sessionId id processorInDb rows) := Wrote.stable processorInDb rows
  have asked : (contract sessionId id).Stable (Asked sessionId id processorInDb rows) := Asked.stable processorInDb rows
  have main_stable (main : Option SessionMain) : (contract sessionId id).Stable fun t =>
      Wrote sessionId id processorInDb rows t ∧ ∃ row, main = some row ∧ Found row.toErSessionMeta t := by
    rintro s t moved ⟨wrote,row,is,named,status⟩
    exact ⟨stable s t moved wrote,row,is,named,status.imp_right fun asked => stable_requested s t moved asked⟩
  have main : Does (contract sessionId id) (service id) (call (.getSession sessionId))
      (fun main t => Wrote sessionId id processorInDb rows t ∧ ∃ row, main = some row ∧
        Found row.toErSessionMeta t) (fun _ => False) s := by
    refine plain_does rfl stable main_stable (.const False) (fun t env inv wrote => ?_) (.inl wrote.1.1.1) wrote
    obtain ⟨row,found,named,status,-⟩ := inv.session
    exact ⟨wrote,row,found,named,status⟩
  unfold activate
  rw [getSession_eq,bind_assoc,bind_assoc]
  refine (main.mono (fun _ _ _ here => here) fun _ _ no => no.elim).bind inv asked fun main t inv here => ?_
  obtain ⟨wrote,row,rfl,named,status⟩ := here
  change Does _ _ (if row.status = "" then raise Failure.nullPointer else _) _ _ t
  rw [if_neg (show ¬ row.status = "" from named)]
  split
  · exact (change_does inv wrote).bind inv asked fun _ t inv here => .pure asked here
  · rename_i changed
    exact .pure asked ⟨wrote,status.resolve_left changed⟩

/-- What a task has come to at its end: it has stored its count, and where all were running a
change to `ACTIVE` has been asked for. -/
def Handled (sessionId : String) (id : ℕ) (processorInDb : ErProcessor) (s : State) : Prop :=
  ∃ rows, Wrote sessionId id processorInDb rows s ∧ (AllRunning rows → ∃ k, 2 * k + 1 ∈ s.requested)

theorem Handled.stable (processorInDb : ErProcessor) :
    (contract sessionId id).Stable (Handled sessionId id processorInDb) :=
  fun s t moved ⟨rows,wrote,asked⟩ =>
    ⟨rows,Wrote.stable processorInDb rows s t moved wrote,fun all => stable_requested s t moved (asked all)⟩

private theorem post_does {processorInDb : ErProcessor} (info : MetaInfo) (own : processorInDb.sessionId = sessionId)
    (inv : Inv sessionId s) (holds : Runs sessionId id processorInDb s ∧ id ∉ s.readers) :
    Does (contract sessionId id) (service id) (asynPostHandle info (some processorInDb) sessionId)
      (fun _ => Handled sessionId id processorInDb) (Handled sessionId id processorInDb) s := by
  have stable : (contract sessionId id).Stable (Handled sessionId id processorInDb) := Handled.stable processorInDb
  have count : Does (contract sessionId id) (service id) (updateSessionMainActiveCount processorInDb.sessionId)
      (CountStored sessionId id processorInDb) (Handled sessionId id processorInDb) s := by
    rw [own]
    exact (count_does inv holds).mono (fun _ _ _ here => here) fun _ _ no => no.elim
  refine count.bind inv stable fun ready t inv here => ?_
  obtain ⟨rows,wrote,goes⟩ := here
  cases ready with
  | true =>
    exact (activate_does info inv wrote).mono (fun _ _ _ here => ⟨rows,here.1,fun _ => here.2⟩)
      fun _ _ here => ⟨rows,here.1,fun _ => here.2⟩
  | false => exact .pure stable ⟨rows,wrote,fun all => absurd (goes all) Bool.false_ne_true⟩

def restate (processorId : Int) (patch : ProcessorPatch) (row : SessionProcessor) : SessionProcessor :=
  if row.processorId = processorId then patch.apply row else row

private theorem restate_id (processorId : Int) (patch : ProcessorPatch) (row : SessionProcessor) :
    (restate processorId patch row).processorId = row.processorId := by
  unfold restate
  split <;> rfl

private theorem restate_session (processorId : Int) (patch : ProcessorPatch) (row : SessionProcessor) :
    (restate processorId patch row).sessionId = row.sessionId := by
  unfold restate
  split <;> rfl

private theorem processorsOf_update (tables : Tables) (processorId : Int) (patch : ProcessorPatch) :
    (tables.write (.updateProcessor processorId patch)).processorsOf sessionId =
      (tables.processorsOf sessionId).map (restate processorId patch) := by
  change ((tables.processors.map (restate processorId patch)).filter _) = _
  rw [List.filter_map]
  refine congrArg (List.map (restate processorId patch)) (List.filter_congr fun row _ => ?_)
  rw [Function.comp_apply,restate_session]

private theorem restate_ids (rows : List SessionProcessor) (processorId : Int) (patch : ProcessorPatch) :
    (rows.map (restate processorId patch)).map SessionProcessor.processorId =
      rows.map SessionProcessor.processorId := by
  rw [List.map_map]
  exact List.map_congr_left fun row _ => restate_id processorId patch row

section
variable {processorId : Int} {patch : ProcessorPatch} (runs : patch.status = "RUNNING")
include runs

private theorem restate_status (row : SessionProcessor) :
    (restate processorId patch row).status = if row.processorId = processorId then "RUNNING" else row.status := by
  unfold restate
  split
  · exact runs
  · rfl

private theorem running_restate (rows : List SessionProcessor) :
    running rows ⊆ running (rows.map (restate processorId patch)) := by
  intro k there
  obtain ⟨row,member,rfl⟩ := List.mem_map.mp there
  obtain ⟨member,is⟩ := List.mem_filter.mp member
  have still : (restate processorId patch row).status = "RUNNING" := by
    rw [restate_status runs]
    split
    · rfl
    · exact of_decide_eq_true is
  refine List.mem_map.mpr ⟨_,List.mem_filter.mpr ⟨List.mem_map_of_mem member,decide_eq_true still⟩,?_⟩
  exact restate_id processorId patch row

private theorem running_restated {rows : List SessionProcessor} (there : processorId ∈ rows.map SessionProcessor.processorId) :
    processorId ∈ running (rows.map (restate processorId patch)) := by
  obtain ⟨row,member,same⟩ := List.mem_map.mp there
  have now : (restate processorId patch row).status = "RUNNING" := by rw [restate_status runs,if_pos same]
  refine List.mem_map.mpr ⟨_,List.mem_filter.mpr ⟨List.mem_map_of_mem member,decide_eq_true now⟩,?_⟩
  rw [restate_id,same]

omit runs in
theorem Inv.restate (inv : Inv sessionId s) (id : ℕ) (processorId : Int) (runs : patch.status = "RUNNING") :
    Inv sessionId { s with tables := s.tables.write (.updateProcessor processorId patch) } ∧
      Guarantees sessionId id s { s with tables := s.tables.write (.updateProcessor processorId patch) } := by
  have rows : (s.tables.write (.updateProcessor processorId patch)).processorsOf sessionId =
      (s.tables.processorsOf sessionId).map (ActiveCount.restate processorId patch) :=
    processorsOf_update s.tables processorId patch
  have ids : ({ s with tables := s.tables.write (.updateProcessor processorId patch) } : State).ids sessionId =
      s.ids sessionId := by
    rw [State.ids,rows,restate_ids]
    rfl
  have grows : s.running sessionId ⊆
      ({ s with tables := s.tables.write (.updateProcessor processorId patch) } : State).running sessionId := by
    rw [State.running,State.running,rows]
    exact running_restate runs _
  obtain ⟨row,found,named,status,stored⟩ := inv.session
  refine ⟨⟨by rw [ids]; exact inv.some_,?_,?_,⟨row,found,named,status,fun some_ => ?_⟩,?_,inv.readers,?_,inv.sorted,
    inv.written⟩,?_⟩
  · change ((s.tables.processors.map (ActiveCount.restate processorId patch)).map SessionProcessor.processorId).Nodup
    rw [restate_ids]
    exact inv.unique
  · rw [rows]
    refine List.forall_mem_map.mpr fun row member => ?_
    rw [restate_status runs]
    split
    · exact .inr rfl
    · exact inv.statuses row member
  · exact ⟨(stored some_).counted,(stored some_).latest⟩
  · intro task there
    obtain ⟨session,processorInDb,is,own,now⟩ := inv.submitted task there
    exact ⟨session,processorInDb,is,own,grows now⟩
  · intro entry there
    rw [ids]
    exact ⟨(inv.counted entry there).1,List.Subset.trans (inv.counted entry there).2 grows⟩
  · exact ⟨⟨ids,grows,List.prefix_rfl,List.prefix_rfl,List.Subset.refl _,List.Subset.refl _⟩,fun _ there _ => there⟩

end

/-- A row of the session as a report reads it. -/
structure Reads (sessionId : String) (processorId : Int) (row : SessionProcessor) : Prop where
  sessionId : row.sessionId = sessionId
  processorId : row.processorId = processorId
  status : row.status = "NEW" ∨ row.status = "RUNNING"

private theorem processor_found (inv : Inv sessionId s) {processorId : Int} (there : processorId ∈ s.ids sessionId) :
    ∃ row, s.tables.processor processorId = some row ∧ Reads sessionId processorId row := by
  obtain ⟨own,member,same⟩ := List.mem_map.mp there
  obtain ⟨inside,session⟩ := List.mem_filter.mp member
  cases found : s.tables.processor processorId with
  | none => exact absurd (decide_eq_true same) (List.find?_eq_none.mp found own inside)
  | some row =>
    have is : row.processorId = processorId := by simpa using List.find?_some found
    have equal : row = own :=
      List.inj_on_of_nodup_map inv.unique (List.mem_of_find?_eq_some found) inside (is.trans same.symm)
    subst equal
    exact ⟨row,rfl,of_decide_eq_true session,is,inv.statuses row member⟩

private theorem still_does {α : Type} {A : State → Prop} {Q : α → Prop} {p : Change α}
    (makes : p.Makes (fun op => plain op = true) Q) (stable : (contract sessionId id).Stable A) (holds : A s) :
    Does (contract sessionId id) (service id) p (fun a t => A t ∧ Q a) (fun _ => True) s := by
  refine (makes.sat stable (fun op still t env u answer inv here served => ?_) holds).mono fun result t _ ends => ?_
  · rcases serve_cases served with ⟨rfl,-,-⟩ | ⟨-,rfl,-⟩
    · exact ⟨inv,⟨.refl _ _,fun _ there _ => there⟩,here⟩
    · obtain ⟨noted,sessions,processors⟩ := note_plain id t still
      rw [noted]
      have moved : Guarantees sessionId id t { t with tables := t.tables.write op } := .of_same processors
      exact ⟨inv.of_same sessions processors,moved,stable t _ ⟨moved.moves,fun there => there⟩ here⟩
  · cases result with
    | ok a => exact ⟨ends.1,ends.2 a rfl⟩
    | error e => trivial

private theorem get_does {A : State → Prop} (processorId : Int) (stable : (contract sessionId id).Stable A)
    (within : ∀ t, A t → processorId ∈ t.ids sessionId) (holds : A s) :
    Does (contract sessionId id) (service id) (call (.getProcessor processorId))
      (fun found t => A t ∧ ∃ row, found = some row ∧ Reads sessionId processorId row) (fun _ => True) s := by
  refine plain_does rfl stable (fun _ => stable.and (.const _)) (.const True) (fun t env inv here => ?_)
    (.inr fun _ _ => trivial) holds
  exact ⟨here,processor_found inv (within t here)⟩

def Up (sessionId : String) (processorId : Int) (s : State) : Prop :=
  processorId ∈ s.ids sessionId ∧ processorId ∈ s.running sessionId

theorem Up.stable (processorId : Int) : (contract sessionId id).Stable (Up sessionId processorId) :=
  (stable_ids processorId).and (stable_running processorId)

theorem update_does {processorId : Int} {patch : ProcessorPatch} (runs : patch.status = "RUNNING")
    (there : processorId ∈ s.ids sessionId) :
    Does (contract sessionId id) (service id) (call (.updateProcessor processorId patch))
      (fun _ => Up sessionId processorId) (fun _ => True) s := by
  refine Does.perform (stable_ids processorId) (fun _ => Up.stable processorId) (.const True) there
    fun t env u answer inv there served => ?_
  rcases serve_cases served with ⟨rfl,-,e,rfl⟩ | ⟨-,rfl,rfl⟩
  · exact ⟨inv,⟨.refl _ _,fun _ there _ => there⟩,trivial⟩
  · obtain ⟨inv',guaranteed⟩ := inv.restate id processorId runs
    refine ⟨inv',guaranteed,?_,?_⟩
    · have same := guaranteed.moves.ids
      exact same ▸ there
    · change processorId ∈ running ((t.tables.write (.updateProcessor processorId patch)).processorsOf sessionId)
      rw [processorsOf_update]
      exact running_restated runs there

private theorem submit_does {processorInDb : ErProcessor} (own : processorInDb.sessionId = sessionId)
    (up : Up sessionId processorInDb.id s) :
    Does (contract sessionId id) (service id) (call (.submit (.updateActiveCount (some processorInDb) sessionId)))
      (fun _ _ => True) (fun _ => True) s := by
  refine Does.perform (Up.stable processorInDb.id) (fun _ => .const True) (.const True) up
    fun t env u answer inv up served => ?_
  rcases serve_cases served with ⟨rfl,-,e,rfl⟩ | ⟨-,rfl,rfl⟩
  · exact ⟨inv,⟨.refl _ _,fun _ there _ => there⟩,trivial⟩
  · obtain ⟨row,found,named,status,stored⟩ := inv.session
    refine ⟨⟨inv.some_,inv.unique,inv.statuses,⟨row,found,named,status,fun some_ => ?_⟩,fun task there => ?_,
      ⟨inv.readers.1,fun reader there => ?_⟩,inv.counted,inv.sorted,inv.written⟩,⟨?_,fun _ there _ => there⟩,trivial⟩
    · exact ⟨(stored some_).counted,(stored some_).latest⟩
    · rcases List.mem_append.mp there with old | new
      · exact inv.submitted task old
      · rw [List.mem_singleton.mp new]
        exact ⟨rfl,processorInDb,rfl,own,up.2⟩
    · obtain ⟨k,within,is⟩ := inv.readers.2 reader there
      refine ⟨k,Nat.lt_of_lt_of_le within ?_,is⟩
      exact (List.prefix_append _ _).length_le
    · exact ⟨rfl,List.Subset.refl _,List.prefix_append _ _,List.prefix_rfl,List.Subset.refl _,List.Subset.refl _⟩

private theorem plain_ofResources (op : Op) (own : ofResources op = true) : plain op = true := by
  unfold ofResources at own
  split at own
  case h_10 => cases own
  all_goals rfl

private theorem call_plain {op : Op} (still : plain op = true) : (call op).Makes (fun op => plain op = true) fun _ => True :=
  call_makes still

private theorem ignore_making (pre des : String) :
    MakingHandler (fun op => plain op = true) processorStateIgnoreHandler (fun _ => True) pre des where
  prepare context _ := by
    change (processorPrepare context _ pre des).Makes _ _
    unfold processorPrepare
    split
    · exact .pure trivial
    · refine .bind (call_plain rfl) fun found _ => ?_
      cases found with
      | some row => exact .pure trivial
      | none => exact .pure trivial
  handle _ _ _ := .pure trivial
  submit _ _ := rfl

private theorem running_does {useResourceDispatch : Bool} {context : Context} {data processorInDb : ErProcessor} {pre : String}
    (inv : Inv sessionId s) (found : context.processorInDb = some processorInDb) (unbroken : context.isBreak = false)
    (own : processorInDb.sessionId = sessionId) (same : processorInDb.id = data.id) (there : data.id ∈ s.ids sessionId) :
    Does (contract sessionId id) (service id)
      (AbstractStateMachine.locked (processorStateRunningHandler useResourceDispatch) context data pre "RUNNING" false)
      (fun _ _ => True) (fun _ => True) s := by
  have prepared : (processorStateRunningHandler useResourceDispatch).prepare context data pre "RUNNING" =
      pure ({ context with openAsynPostHandle := true },data) := rfl
  rw [AbstractStateMachine.locked,prepared,pure_bind,if_neg (by rw [unbroken]; exact Bool.false_ne_true)]
  have stable : (contract sessionId id).Stable (Up sessionId data.id) := Up.stable data.id
  have handled : Does (contract sessionId id) (service id)
      ((processorStateRunningHandler useResourceDispatch).handle { context with openAsynPostHandle := true } data pre
        "RUNNING")
      (fun result t => Up sessionId data.id t ∧ result.1.processorInDb = some processorInDb ∧
        result.2.sessionId = sessionId) (fun _ => True) s := by
    refine (update_does rfl there).bind inv (.const True) fun _ t inv up => ?_
    have resources : (changeResourceIfNeeded useResourceDispatch { context with openAsynPostHandle := true } data
        "pre_allocated" "allocated").Makes (fun op => plain op = true)
          (Keeps { context with openAsynPostHandle := true } data) :=
      resourceIfNeeded_makes plain_ofResources useResourceDispatch (fun same => absurd same (by decide)) data
    refine (still_does resources stable up).bind inv (.const True) fun changed t inv here => ?_
    obtain ⟨up,kept⟩ := here
    have within (t : State) (up : Up sessionId data.id t) : changed.2.id ∈ t.ids sessionId := by
      rw [kept.2]
      exact up.1
    refine (get_does changed.2.id stable within up).bind inv (.const True) fun row t inv here => ?_
    obtain ⟨up,row,rfl,reads⟩ := here
    exact .pure (stable.and (.const _)) ⟨up,kept.1.trans found,reads.sessionId⟩
  refine Does.bind (A := fun result t => Up sessionId data.id t ∧ result.1.processorInDb = some processorInDb ∧
    result.2.sessionId = sessionId) ?_ inv (.const True) fun result t inv here => ?_
  · exact handled.bind inv (.const True) fun result t inv here => .pure (stable.and (.const _)) here
  · obtain ⟨up,given,session⟩ := here
    unfold AbstractStateMachine.submitPost
    split
    · have task : (processorStateRunningHandler useResourceDispatch).asynPostHandle result.1 result.2 =
          .updateActiveCount (some processorInDb) sessionId := by
        rw [← given,← session]
        rfl
      rw [task]
      rw [← same] at up
      exact (submit_does own up).bind inv (.const True) fun _ t inv _ => .pure (.const True) trivial
    · exact .pure (.const True) trivial

private theorem report_does {useResourceDispatch : Bool} {data : ErProcessor} (inv : Inv sessionId s)
    (there : data.id ∈ s.ids sessionId) :
    Does (contract sessionId id) (service id)
      ((processorStateMachine useResourceDispatch).changeStatus {} data "" "RUNNING" false) (fun _ _ => True)
      (fun _ => True) s := by
  have stable : (contract sessionId id).Stable fun t => data.id ∈ t.ids sessionId := stable_ids data.id
  have line : Does (contract sessionId id) (service id)
      ((processorStateMachine useResourceDispatch).buildStateChangeLine {} data "" "RUNNING")
      (fun built t => data.id ∈ t.ids sessionId ∧ ∃ row, Reads sessionId data.id row ∧
        built = processorLine {} data "" "RUNNING" (some row)) (fun _ => True) s := by
    refine (get_does data.id stable (fun _ there => there) there).bind inv (.const True) fun found t inv here => ?_
    obtain ⟨there,row,rfl,reads⟩ := here
    exact .pure (stable.and (.const _)) ⟨there,row,reads,rfl⟩
  refine line.bind inv (.const True) fun built t inv here => ?_
  obtain ⟨there,row,reads,rfl⟩ := here
  -- Whatever is done under the lock of the processor, the sites of the session stay.
  have locked {body : Change (Context × ErProcessor)} (key : String)
      (does : ∀ t, Inv sessionId t → data.id ∈ t.ids sessionId →
        Does (contract sessionId id) (service id) body (fun _ _ => True) (fun _ => True) t) :
      Does (contract sessionId id) (service id)
        (Program.tryFinally (do call (.lock .processor key); body) (call (.unLock .processor key)))
        (fun _ _ => True) (fun _ => True) t := by
    have ends (u : State) : Does (contract sessionId id) (service id) (call (.unLock .processor key))
        (fun _ _ => True) (fun _ => True) u :=
      (still_does (call_plain rfl) (.const True) trivial).mono (fun _ _ _ _ => trivial) fun _ _ _ => trivial
    have begins : Does (contract sessionId id) (service id) (call (.lock .processor key))
        (fun _ t => data.id ∈ t.ids sessionId) (fun _ => True) t :=
      (still_does (call_plain rfl) stable there).mono (fun _ _ _ here => here.1) fun _ _ _ => trivial
    refine Does.tryFinally (A := fun _ _ => True) (E := fun _ => True) ?_ inv (fun _ => .const True) (.const True)
      (fun _ t _ _ => ends t) fun t _ _ => ends t
    exact begins.bind inv (.const True) fun _ t inv there => does t inv there
  rcases reads.status with new | already
  · have handler : (processorStateMachine useResourceDispatch).handler
        (processorLine {} data "" "RUNNING" (some row)).2 = some (processorStateRunningHandler useResourceDispatch) := by
      simp only [processorLine,if_pos,Option.map_some,Option.getD_some,new]
      rfl
    rw [handler]
    exact locked _ fun t inv there => running_does inv (rfl : _ = some row.toErProcessor) rfl reads.sessionId
      reads.processorId there
  · have handler : (processorStateMachine useResourceDispatch).handler
        (processorLine {} data "" "RUNNING" (some row)).2 = some processorStateIgnoreHandler := by
      simp only [processorLine,if_pos,Option.map_some,Option.getD_some,already]
      rfl
    rw [handler]
    exact locked _ fun t _ there =>
      (still_does (locked_makes (ignore_making "" "RUNNING") _) stable there).mono (fun _ _ _ _ => trivial)
        fun _ _ _ => trivial

end

section
variable {sessionId : String}

def Ends (sessionId : String) (id : ℕ) : Request → Except Failure Unit → State → Prop
  | .running _, _, _ => id % 2 = 0
  | .post processorInDb session, _, s => ∃ own, processorInDb = some own ∧ session = sessionId ∧
      Handled sessionId id own s

theorem Fresh.inv {tables : Tables} (fresh : Fresh sessionId tables) : Inv sessionId (.init tables) := by
  obtain ⟨row,found,new⟩ := fresh.session
  have named : row.status ≠ "" := by
    rw [new]
    decide
  refine ⟨fun none => fresh.some_ (List.map_eq_nil_iff.mp none),fresh.ids,
    fun row member => .inl (fresh.processors row member),⟨row,found,named,.inl new,fun no => absurd rfl no⟩,?_,
    ⟨List.nodup_nil,?_⟩,?_,.nil,List.Subset.refl _⟩
  all_goals exact fun _ there => nomatch there

theorem kept (info : MetaInfo) {p : Run} (reached : (system info sessionId service).Reachable p) :
    Pool.Kept (Inv sessionId) (contract sessionId) (fun id s => id ∉ s.readers) service (Ends sessionId) p := by
  refine Pool.Kept.admitted (fit sessionId) ?_ (fun p id request allowed inv idle => ?_) reached
  · rintro _ ⟨tables,fresh,rfl⟩
    exact ⟨fresh.inv,fun id => List.not_mem_nil⟩
  · cases request with
    | running data =>
      obtain ⟨even,there⟩ := of_decide_eq_true allowed
      refine Program.Sat.mono ((report_does inv there).bind inv (.const True) fun _ _ _ _ =>
        .pure (A := fun _ _ => True) (.const True) trivial) fun result t _ _ => even
    | post processorInDb session =>
      obtain ⟨odd,task⟩ := of_decide_eq_true allowed
      obtain ⟨is,own,given,mine,-⟩ := inv.submitted _ (List.mem_of_getElem? task)
      dsimp only at is given
      subst is given
      refine Program.Sat.mono (post_does info mine inv ⟨⟨odd,task⟩,idle⟩) fun result t _ ends => ⟨own,rfl,rfl,?_⟩
      cases result with
      | ok _ => exact ends
      | error _ => exact ends

private theorem task_ended {info : MetaInfo} {p : Run} (reached : (system info sessionId service).Reachable p)
    (ended : AllEnded sessionId p) {k : ℕ} (within : k < p.shared.submitted.length) :
    ∃ own rows, p.shared.submitted[k]? = some (some own,sessionId) ∧
      Wrote sessionId (2 * k + 1) own rows p.shared ∧ (AllRunning rows → ∃ k, 2 * k + 1 ∈ p.shared.requested) := by
  obtain ⟨request,result,done⟩ := ended.ended k within
  have ends := (kept info reached).ended (fit sessionId) done
  cases request with
  | running data =>
    have even : (2 * k + 1) % 2 = 0 := ends
    omega
  | post processorInDb session =>
    obtain ⟨own,-,-,rows,wrote,asked⟩ := ends
    have half : (2 * k + 1) / 2 = k := by omega
    exact ⟨own,rows,half ▸ wrote.1.1.2,wrote,asked⟩

private theorem allRunning_of {rows : List SessionProcessor} (once : (rows.map SessionProcessor.processorId).Nodup)
    (all : rows.map SessionProcessor.processorId ⊆ running rows) : AllRunning rows := by
  intro row member
  obtain ⟨other,there,same⟩ := List.mem_map.mp (all (List.mem_map_of_mem member))
  obtain ⟨there,is⟩ := List.mem_filter.mp there
  rw [← List.inj_on_of_nodup_map once there member same]
  exact of_decide_eq_true is

private theorem last_reader {info : MetaInfo} {p : Run} (reached : (system info sessionId service).Reachable p)
    (ended : AllEnded sessionId p) : ∃ last ∈ p.shared.counted, last.2.map SessionProcessor.processorId =
      p.shared.ids sessionId ∧ AllRunning last.2 := by
  have inv := (kept info reached).invariant
  -- the task of each processor has counted it
  have each : ∀ processorId ∈ p.shared.ids sessionId, ∃ entry ∈ p.shared.counted, processorId ∈ running entry.2 := by
    intro processorId member
    obtain ⟨row,there,rfl⟩ := List.mem_map.mp member
    obtain ⟨processorInDb,session,submitted,same⟩ := ended.handled row there
    obtain ⟨k,within,is⟩ := List.mem_iff_getElem.mp submitted
    obtain ⟨own,rows,task,wrote,-⟩ := task_ended reached ended within
    rw [List.getElem?_eq_getElem within,is] at task
    cases task
    exact ⟨_,wrote.1.2.entry,same ▸ wrote.1.2.own⟩
  obtain ⟨first,member⟩ := List.exists_mem_of_ne_nil _ inv.some_
  obtain ⟨entry,there,-⟩ := each first member
  have nonempty : p.shared.counted ≠ [] := List.ne_nil_of_mem there
  have sorted := inv.sorted
  rw [← List.dropLast_append_getLast nonempty] at sorted
  have below := (List.pairwise_append.mp sorted).2.2
  have last := List.getLast_mem nonempty
  refine ⟨_,last,(inv.counted _ last).1,?_⟩
  have once := ids_nodup inv
  rw [← (inv.counted _ last).1] at once
  refine allRunning_of once fun processorId member => ?_
  rw [(inv.counted _ last).1] at member
  obtain ⟨entry,there,runs⟩ := each processorId member
  rw [← List.dropLast_append_getLast nonempty] at there
  rcases List.mem_append.mp there with earlier | same
  · exact below entry earlier _ (List.mem_singleton_self _) runs
  · rw [← List.mem_singleton.mp same]
    exact runs

end

/-- Where no call of a task fails and tasks store their counts in the order in which they have
read the rows, the count converges in every run. -/
theorem count_converges (info : MetaInfo) (sessionId : String) (p : Run)
    (reached : (system info sessionId service).Reachable p) : Converges sessionId p := by
  intro ended
  have inv := (kept info reached).invariant
  obtain ⟨last,there,ids,all⟩ := last_reader reached ended
  obtain ⟨k,within,is⟩ := inv.readers.2 last.1 (List.mem_map_of_mem there)
  obtain ⟨own,rows,-,wrote,asked⟩ := task_ended reached ended within
  have same : last = (2 * k + 1,rows) := List.inj_on_of_nodup_map inv.readers.1 there wrote.1.2.entry is
  subst same
  obtain ⟨row,found,-,-,stored⟩ := inv.session
  obtain ⟨⟨entry,counted,count⟩,latest⟩ := stored (List.ne_nil_of_mem wrote.2)
  have most := latest _ there wrote.2 _ count
  have least := (running_sublist entry.2).length_le
  rw [(inv.counted entry counted).1] at least
  rw [running_all all,ids] at most
  refine ⟨⟨row,found,?_⟩,asked all⟩
  have size : (p.shared.ids sessionId).length = (p.shared.tables.processorsOf sessionId).length := List.length_map _
  rw [count]
  have : (running entry.2).length = (p.shared.tables.processorsOf sessionId).length := by omega
  rw [this]

def newRow (processorId : Int) : SessionProcessor := ⟨processorId,"s",1,"egg_pair","NEW",none,"",none,none,[],none⟩

def newTables (processorIds : List Int) : Tables :=
  ⟨[⟨"s","","NEW",none,none,"",some processorIds.length,some 0⟩],[],processorIds.map newRow,3,[],[]⟩

def report (processorId : Int) : Request := .running { (newRow processorId).toErProcessor with status := "RUNNING" }

def task (processorId : Int) : Request := .post (some (newRow processorId).toErProcessor) "s"

def calls (id n : ℕ) : List (Pool.Act Request Env) := List.replicate n (.step id {})

private theorem newTables_fresh {processorIds : List Int} (some_ : processorIds ≠ []) (once : processorIds.Nodup) :
    Fresh "s" (newTables processorIds) := by
  have rows : (newTables processorIds).processorsOf "s" = processorIds.map newRow :=
    List.filter_eq_self.mpr (List.forall_mem_map.mpr fun _ _ => rfl)
  refine ⟨⟨_,rfl,rfl⟩,?_,?_,?_⟩
  · rw [rows]
    exact fun none => some_ (List.map_eq_nil_iff.mp none)
  · rw [rows]
    exact List.forall_mem_map.mpr fun _ _ => rfl
  · change ((processorIds.map newRow).map SessionProcessor.processorId).Nodup
    rw [List.map_map,show SessionProcessor.processorId ∘ newRow = id from rfl,List.map_id]
    exact once

def bothDone (p : Run) : Prop :=
  (∀ row ∈ p.shared.tables.processorsOf "s", row.status = "RUNNING" ∧ row.processorId ∈ [1,2]) ∧
    p.shared.submitted = [(some (newRow 1).toErProcessor,"s"),(some (newRow 2).toErProcessor,"s")] ∧
    p.result 1 = some (task 1,.ok ()) ∧ p.result 3 = some (task 2,.ok ())

instance (p : Run) : Decidable (bothDone p) := inferInstanceAs (Decidable (_ ∧ _ ∧ _ ∧ _))

theorem bothDone.ended {p : Run} (done : bothDone p) : AllEnded "s" p := by
  obtain ⟨rows,submitted,first,second⟩ := done
  refine ⟨fun row member => (rows row member).1,fun row member => ?_,fun k within => ?_⟩
  · rw [submitted]
    rcases List.mem_cons.mp (rows row member).2 with is | other
    · exact ⟨_,_,List.mem_cons_self,is.symm⟩
    · exact ⟨_,_,List.mem_cons_of_mem _ (List.mem_singleton_self _),(List.mem_singleton.mp other).symm⟩
  · rw [submitted] at within
    have small : k < 2 := within
    obtain rfl | rfl : k = 0 ∨ k = 1 := by omega
    · exact ⟨_,_,Pool.ended_of_result first⟩
    · exact ⟨_,_,Pool.ended_of_result second⟩

/-- Both tasks have read the rows before either of them stores its count, in the order of their reads. -/
theorem count_converges_two : ∃ p, (system ⟨false,1⟩ "s" service).Reachable p ∧ AllEnded "s" p ∧ Converges "s" p := by
  have ran : ((system ⟨false,1⟩ "s" service).exec ⟨.init (newTables [1,2]),fun _ => none⟩
      ([.invoke 0 (report 1)] ++ calls 0 6 ++ [.invoke 1 (task 1)] ++ calls 1 2 ++
        [.invoke 2 (report 2)] ++ calls 2 6 ++ [.invoke 3 (task 2)] ++ calls 3 2 ++ calls 1 1 ++ calls 3 11)).any
      (fun p => decide (bothDone p)) = true := by
    decide +kernel
  obtain ⟨p,run,found⟩ := (Option.any_eq_true _ _).mp ran
  have reached : (system ⟨false,1⟩ "s" service).Reachable p :=
    ⟨_,_,⟨⟨_,newTables_fresh (by decide) (by decide),rfl⟩,fun _ => rfl⟩,run⟩
  exact ⟨p,reached,(of_decide_eq_true found).ended,count_converges ⟨false,1⟩ "s" p reached⟩

/-- The first task reads one processor running, and stores its count after the second one. -/
theorem count_overwritten : ∃ p, (system ⟨false,1⟩ "s" State.serve).Reachable p ∧ AllEnded "s" p ∧
    (p.shared.tables.processorsOf "s").length = 2 ∧
    (p.shared.tables.session "s").map SessionMain.activeProcCount = some (some 1) ∧ ¬ Converges "s" p := by
  have ran : ((system ⟨false,1⟩ "s" State.serve).exec ⟨.init (newTables [1,2]),fun _ => none⟩
      ([.invoke 0 (report 1)] ++ calls 0 6 ++ [.invoke 1 (task 1)] ++ calls 1 2 ++
        [.invoke 2 (report 2)] ++ calls 2 6 ++ [.invoke 3 (task 2)] ++ calls 3 13 ++ calls 1 1)).any (fun p => decide
        (bothDone p ∧ (p.shared.tables.processorsOf "s").length = 2 ∧
          (p.shared.tables.session "s").map SessionMain.activeProcCount = some (some 1))) = true := by
    decide +kernel
  obtain ⟨p,run,found⟩ := (Option.any_eq_true _ _).mp ran
  obtain ⟨done,size,count⟩ := of_decide_eq_true found
  refine ⟨p,⟨_,_,⟨⟨_,newTables_fresh (by decide) (by decide),rfl⟩,fun _ => rfl⟩,run⟩,done.ended,size,count,fun converges => ?_⟩
  obtain ⟨⟨row,found,is⟩,-⟩ := converges done.ended
  rw [found,Option.map_some,is,size] at count
  exact absurd count (by decide)

end Eggroll.Cluster.ActiveCount
