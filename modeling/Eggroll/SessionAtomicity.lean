import Eggroll.ProcessorAtomicity

/-! When a status change of a session that raises leaves the tables as they were, and with it
when the changes of all three machines do. -/
namespace Eggroll.Cluster
open Library
open Program hiding call
open AbstractStateMachine

variable {s : Tables} {info : MetaInfo} {context : Context} {data : ErSessionMeta} {pre des : String} {callback : Bool}

private theorem changeEach_ensures (unbroken : context.isBreak = false) (processors : List ErProcessor) :
    (changeEach info des context processors).Ensures Tables.serve Unbroken := by
  induction processors generalizing context with
  | nil => exact .pure unbroken
  | cons processor rest ih =>
    exact (processor_change_ensures unbroken).bind fun changed kept => (ih kept).bind fun others kept => .pure kept

private theorem changeEach_alters (unbroken : context.isBreak = false) (known : des = "NEW" ∨ des = "KILLED" ∨ des = "STOPPED")
    {processors : List ErProcessor} (changes : ∃ processor ∈ processors, changesProcessor s des processor) :
    (changeEach info des context processors).Alters Tables.serve (fun _ => True) s := by
  induction processors generalizing context with
  | nil =>
    obtain ⟨processor,⟨⟩,-⟩ := changes
  | cons processor rest ih =>
    by_cases now : changesProcessor s des processor
    · exact (processor_alters unbroken known now).now (fun _ _ => trivial) fun _ _ => stays _
    · obtain ⟨result,kept,ends⟩ := (processor_unaltered info.useResourceDispatch unbroken known now).2
      refine .later ends ((ih kept ?_).now (fun _ _ => trivial) fun _ _ => stays _)
      obtain ⟨one,inside,changes⟩ := changes
      rcases List.mem_cons.mp inside with rfl | inside
      · exact absurd changes now
      · exact ⟨one,inside,changes⟩

private theorem changeEach_still (unbroken : context.isBreak = false) (known : des = "NEW" ∨ des = "KILLED" ∨ des = "STOPPED")
    {processors : List ErProcessor} (keeps : ¬ ∃ processor ∈ processors, changesProcessor s des processor) :
    (changeEach info des context processors).Still Tables.serve (fun _ => True) s := by
  induction processors generalizing context with
  | nil => exact .pure trivial
  | cons processor rest ih =>
    have first := processor_unaltered info.useResourceDispatch unbroken known
      fun changes => keeps ⟨processor,by simp,changes⟩
    refine (first.1.ensured (processor_change_ensures unbroken)).bind (fun _ _ => trivial) fun changed kept => ?_
    refine (ih (kept changed rfl) fun later => keeps ?_).bind (fun _ _ => trivial) fun _ _ => .pure trivial
    obtain ⟨one,inside,changes⟩ := later
    exact ⟨one,by simp [inside],changes⟩

private theorem saveOption_alters (row : SessionOption) : s.write (.saveOption row) ≠ s := by
  intro same
  have longer := congrArg (fun t => t.options.length) same
  simp [Tables.write] at longer

def altersInserted (s : Tables) (erSessionMeta : ErSessionMeta) : Prop :=
  erSessionMeta.options ≠ [] ∨ ∃ processor ∈ erSessionMeta.processors, changesProcessor s "NEW" processor

private theorem doInserSession_ensures (unbroken : context.isBreak = false) (erSessionMeta : ErSessionMeta) :
    (doInserSession info context erSessionMeta).Ensures Tables.serve Unbroken :=
  .after fun _ => (changeEach_ensures unbroken _).bind fun _ kept => .pure kept

private theorem doInserSession_alters (unbroken : context.isBreak = false) {erSessionMeta : ErSessionMeta}
    (altered : altersInserted s erSessionMeta) :
    (doInserSession info context erSessionMeta).Alters Tables.serve (fun _ => True) s := by
  unfold doInserSession
  cases options : erSessionMeta.options with
  | nil =>
    rw [saveOptions,pure_bind]
    have processors := altered.resolve_left fun some_ => some_ options
    exact (changeEach_alters unbroken (.inl rfl) processors).now (fun _ _ => trivial) fun _ _ => stays _
  | cons option rest =>
    refine Alters.now (P := fun _ => True) ?_ (fun _ _ => trivial) fun _ _ => stays _
    exact (call_alters (Q := fun _ => True) rfl (saveOption_alters _) trivial).now (fun _ _ => trivial) fun _ _ => stays _

private theorem doInserSession_still (unbroken : context.isBreak = false) {erSessionMeta : ErSessionMeta}
    (unaltered : ¬ altersInserted s erSessionMeta) :
    (doInserSession info context erSessionMeta).Still Tables.serve (fun _ => True) s := by
  have options : erSessionMeta.options = [] := not_not.mp fun some_ => unaltered (.inl some_)
  unfold doInserSession
  rw [options,saveOptions,pure_bind]
  exact (changeEach_still unbroken (.inl rfl) fun changes => unaltered (.inr changes)).bind (fun _ _ => trivial)
    fun _ _ => .pure trivial

private theorem saveSession_alters (row : SessionMain) : s.write (.saveSession row) ≠ s := by
  intro same
  have longer := congrArg (fun t => t.sessions.length) same
  simp [Tables.write] at longer

private theorem updateSession_alters {sessionId status : String} {row : SessionMain} {patch : SessionPatch}
    (found : s.session sessionId = some row) (sets : patch.status = some status) (other : row.status ≠ status) :
    s.write (.updateSession sessionId patch) ≠ s := by
  intro same
  obtain ⟨member,id⟩ := session_spec found
  have rows := congrArg Tables.sessions same
  have each := List.map_inj_left.mp (rows.trans (List.map_id _).symm) row member
  rw [if_pos id] at each
  have stored := congrArg SessionMain.status each
  simp only [SessionPatch.apply,sets,Option.getD_some,id_eq] at stored
  exact other stored.symm

private theorem reads_missing {withProcessor withOption withResource : Bool} {sessionId : String}
    (missing : s.session sessionId = none) :
    (getSession sessionId withProcessor withOption withResource).Reads Tables.serve s none := by
  have reads := reads_getSession (s := s) sessionId withProcessor withOption withResource
  rwa [Tables.readSession,missing] at reads

/-- What `buildSession` makes, if it does not raise. -/
def builtSession (info : MetaInfo) (context : Context) (erSessionMeta : ErSessionMeta) : Option ErSessionMeta :=
  if context.serverNodes = [] then none
  else (processorsPerNode info erSessionMeta.options).map fun eggs =>
    { erSessionMeta with processors := newProcessors context erSessionMeta eggs }

theorem buildSession_some {erSessionMeta built : ErSessionMeta}
    (builds : builtSession info context erSessionMeta = some built) :
    buildSession info context erSessionMeta = pure built := by
  unfold builtSession at builds
  unfold buildSession eggsPerNode
  split at builds
  case isTrue => cases builds
  case isFalse nodes =>
    rw [if_neg nodes]
    cases eggs : processorsPerNode info erSessionMeta.options with
    | none => simp [eggs] at builds
    | some n =>
      rw [eggs] at builds
      cases builds
      rfl

theorem buildSession_none {erSessionMeta : ErSessionMeta} (fails : builtSession info context erSessionMeta = none) :
    ∃ e, buildSession info context erSessionMeta = raise e := by
  unfold builtSession at fails
  unfold buildSession eggsPerNode
  split at fails
  case isTrue nodes => exact ⟨_,if_pos nodes⟩
  case isFalse nodes =>
    rw [if_neg nodes]
    cases eggs : processorsPerNode info erSessionMeta.options with
    | none => exact ⟨.numberFormat,rfl⟩
    | some n => simp [eggs] at fails

/-- How the creations end: the options and processors, and then the flag for the containers. -/
def insertAndOpen (info : MetaInfo) (context : Context) (erSessionMeta : ErSessionMeta) :
    Change (Context × ErSessionMeta) := do
  let inserted ← doInserSession info context erSessionMeta
  pure ({ inserted.1 with openAsynPostHandle := true },inserted.2)

private theorem insertAndOpen_ensures (unbroken : context.isBreak = false) (erSessionMeta : ErSessionMeta) :
    (insertAndOpen info context erSessionMeta).Ensures Tables.serve fun result => goesOn callback result.1 :=
  (doInserSession_ensures unbroken erSessionMeta).bind fun _ kept => .pure (.inr ⟨rfl,kept⟩)

private theorem insertAndOpen_still (unbroken : context.isBreak = false) {erSessionMeta : ErSessionMeta}
    (unaltered : ¬ altersInserted s erSessionMeta) :
    (insertAndOpen info context erSessionMeta).Still Tables.serve (fun _ => True) s :=
  (doInserSession_still unbroken unaltered).bind (fun _ _ => trivial) fun _ _ => .pure trivial

private theorem sessionCreate_atomic (unbroken : context.isBreak = false) :
    ((sessionCreateHandler info).handle context data pre des >>= finish (sessionCreateHandler info) callback).Atomic
        Tables.serve s ↔
      s.session data.id ≠ none ∨ builtSession info context { data with status := "NEW" } = none := by
  constructor
  · intro atomic
    by_contra undone
    push Not at undone
    obtain ⟨missing,builds⟩ := undone
    obtain ⟨built,builds⟩ := Option.ne_none_iff_exists'.mp builds
    have id : built.id = data.id := by
      unfold builtSession at builds
      split at builds
      · cases builds
      · obtain ⟨_,-,rfl⟩ := Option.map_eq_some_iff.mp builds
        rfl
    refine handled_spoilt (Q := fun result => ∀ a, result = .ok a → goesOn callback a.1) ?_
      (fun result holds => holds result rfl) atomic
    apply Alters.later (reads_missing missing).yields
    dsimp only
    rw [buildSession_some builds,pure_bind]
    have granted : s.refuses (.saveSession (newSessionMain built "NEW")) = false := by
      simp [Tables.refuses,newSessionMain,id,missing]
    refine (call_alters (Q := fun _ => True) granted (saveSession_alters _) trivial).now
      (fun e _ => vacuous e) fun _ _ => ?_
    exact (stays (insertAndOpen info context built)).ensured (insertAndOpen_ensures unbroken built)
  · intro done
    apply handled_atomic
    refine (reads_getSession data.id true true false).still.bind (fun _ _ => trivial) fun found same => ?_
    rw [same found rfl]
    unfold Tables.readSession
    cases stored : s.session data.id with
    | some row => exact .pure trivial
    | none =>
      obtain ⟨e,raises⟩ := buildSession_none (done.resolve_left (not_not_intro stored))
      simp only [Option.map_none]
      rw [raises]
      exact .raise trivial

/-- What `SessionWaitNewHandler` alters with the session that it has built. -/
def altersWaiting (s : Tables) (built : ErSessionMeta) : Prop :=
  s.write (.updateSession built.id (newSessionMain built "NEW").columns) ≠ s ∨ altersInserted s built

private theorem sessionWaitNew_atomic (unbroken : context.isBreak = false) :
    ((sessionWaitNewHandler info).handle context data pre des >>= finish (sessionWaitNewHandler info) callback).Atomic
        Tables.serve s ↔
      ∀ built, builtSession info context { data with status := "NEW" } = some built → ¬ altersWaiting s built := by
  constructor
  · intro atomic built builds altered
    refine handled_spoilt (Q := fun result => ∀ a, result = .ok a → goesOn callback a.1) ?_
      (fun result holds => holds result rfl) atomic
    simp only [sessionWaitNewHandler]
    rw [buildSession_some builds,pure_bind]
    by_cases row : s.write (.updateSession built.id (newSessionMain built "NEW").columns) = s
    · apply Alters.later (reads_call row rfl fun _ => rfl).yields
      have inserted : (doInserSession info context built).Alters Tables.serve (fun _ => True) s :=
        doInserSession_alters unbroken (altered.resolve_left (not_not_intro row))
      exact (inserted.ensured (doInserSession_ensures unbroken built)).now (fun e _ => vacuous e)
        fun result kept => .pure fun a is => by cases is; exact .inr ⟨rfl,kept result rfl⟩
    · refine (call_alters (Q := fun _ => True) rfl row trivial).now (fun e _ => vacuous e) fun _ _ => ?_
      exact (stays (insertAndOpen info context built)).ensured (insertAndOpen_ensures unbroken built)
  · intro unaltered
    apply handled_atomic
    simp only [sessionWaitNewHandler]
    cases builds : builtSession info context { data with status := "NEW" } with
    | none =>
      obtain ⟨e,raises⟩ := buildSession_none builds
      rw [raises]
      exact .raise trivial
    | some built =>
      have none_ := unaltered built builds
      rw [buildSession_some builds,pure_bind]
      have row := not_not.mp fun altered => none_ (.inl altered)
      refine (reads_call row rfl fun _ => rfl).still.bind (fun _ _ => trivial) fun _ _ => ?_
      exact insertAndOpen_still unbroken fun inserted => none_ (.inr inserted)

private theorem locked_raises {handler : StateHandler ErSessionMeta}
    (raises : (handler.prepare context data pre des).Still Tables.serve Raised s) :
    (locked handler context data pre des callback).Atomic Tables.serve s := by
  refine Still.atomic (Q := fun _ => True) (raises.bind (fun _ _ => trivial) fun _ raised => ?_)
  exact raised.elim

section NotNull
variable {sessionId : String} {withProcessor withOption withResource : Bool}

private theorem notNull_raises (missing : s.session sessionId = none) :
    (getSession sessionId withProcessor withOption withResource >>= notNull).Still Tables.serve Raised s := by
  refine (reads_missing missing).still.bind (fun _ _ => trivial) fun found same => ?_
  rw [same found rfl]
  exact .raise trivial

private theorem reads_notNull {row : SessionMain} (found : s.session sessionId = some row) :
    (getSession sessionId withProcessor withOption withResource >>= notNull).Reads Tables.serve s
      { row.toErSessionMeta with
        processors := if withProcessor then s.readProcessors sessionId withResource else []
        options := if withOption then s.readOptions sessionId else [] } := by
  have reads := reads_getSession (s := s) sessionId withProcessor withOption withResource
  rw [Tables.readSession,found] at reads
  exact reads.bind .pure

private theorem getSession_falls : (getSession sessionId withProcessor withOption withResource).Stays Tables.serve Raised :=
  (call_falls rfl).bind (fun _ _ => trivial) fun _ raised => raised.elim

private theorem notNull_falls {next : ErSessionMeta → Change α} :
    (getSession sessionId withProcessor withOption withResource >>= notNull >>= next).Stays Tables.serve Raised := by
  have first : (getSession sessionId withProcessor withOption withResource >>= notNull).Stays Tables.serve Raised :=
    getSession_falls.bind (fun _ _ => trivial) fun _ raised => raised.elim
  exact first.bind (fun _ _ => trivial) fun _ raised => raised.elim

end NotNull

private theorem sessionActive_atomic : (locked sessionActiveHandler context data pre des callback).Atomic Tables.serve s ↔
    context.isBreak ∨ ∀ row, s.session data.id = some row → row.status ≠ "NEW" := by
  cases found : s.session data.id with
  | none =>
    refine iff_of_true (locked_raises ?_) (.inr nofun)
    exact (notNull_raises found).bind (fun _ _ => trivial) fun _ raised => raised.elim
  | some row =>
    have prepares : (sessionActiveHandler.prepare context data pre des).Reads Tables.serve s
        (if row.status ≠ "NEW" then { context with isBreak := true } else { context with openAsynPostHandle := true },
          { row.toErSessionMeta with status := "ACTIVE" }) := (reads_notNull found).bind .pure
    rw [locked_atomic prepares]
    simp only [Option.some.injEq,forall_eq']
    by_cases new : row.status = "NEW"
    · simp only [new,ne_eq,not_true_eq_false,if_false,or_false]
      refine ⟨fun broken => broken.resolve_right fun atomic => ?_,.inl⟩
      refine handled_spoilt (Q := Raised) ?_ (fun _ raised => raised.elim) atomic
      have altered : s.write (.updateSession row.sessionId { status := some "ACTIVE" }) ≠ s := by
        rw [(session_spec found).2]
        exact updateSession_alters found rfl (by simp [new])
      exact (call_alters (Q := fun _ => True) rfl altered trivial).now (fun _ _ => trivial) fun _ _ => notNull_falls
    · refine iff_of_true (.inl ?_) (.inr new)
      rw [if_pos new]

def altersEnd (s : Tables) (context : Context) (data : ErSessionMeta) (row : SessionMain)
    (processorStatus des : String) : Prop :=
  s.write (.updateSession row.sessionId {
    status := some des
    activeProcCount := data.activeProcCount <|> row.activeProcCount
    beforeStatus := some (valueOf context.beforeStatus)
    statusReason := some (valueOf context.statusReason) }) ≠ s ∨
  ∃ processor ∈ s.readProcessors data.id false, changesProcessor s processorStatus processor

section End
variable {processorStatus : String}

private theorem sessionEnd_alters (unbroken : context.isBreak = false)
    (known : processorStatus = "KILLED" ∨ processorStatus = "STOPPED") {row : SessionMain} {erSessionMeta : ErSessionMeta}
    (is : erSessionMeta = { row.toErSessionMeta with
      processors := s.readProcessors data.id false
      activeProcCount := data.activeProcCount <|> row.activeProcCount })
    (altered : altersEnd s context data row processorStatus des) :
    ((sessionEndHandler info processorStatus).handle context erSessionMeta pre des).Alters Tables.serve Raised s := by
  subst is
  simp only [sessionEndHandler,updateStatus]
  by_cases state : s.write (.updateSession row.sessionId {
      status := some des
      activeProcCount := data.activeProcCount <|> row.activeProcCount
      beforeStatus := some (valueOf context.beforeStatus)
      statusReason := some (valueOf context.statusReason) }) = s
  · apply Alters.later (reads_call state rfl fun _ => rfl).yields
    exact (changeEach_alters unbroken (.inr known) (altered.resolve_left (not_not_intro state))).now
      (fun _ _ => trivial) fun _ _ => notNull_falls
  · refine (call_alters (Q := fun _ => True) rfl state trivial).now (fun _ _ => trivial) fun _ _ => ?_
    exact (stays _).bind (fun _ _ => trivial) fun _ _ => notNull_falls

private theorem sessionEnd_still (unbroken : context.isBreak = false)
    (known : processorStatus = "KILLED" ∨ processorStatus = "STOPPED") {row : SessionMain} {erSessionMeta : ErSessionMeta}
    (is : erSessionMeta = { row.toErSessionMeta with
      processors := s.readProcessors data.id false
      activeProcCount := data.activeProcCount <|> row.activeProcCount })
    (unaltered : ¬ altersEnd s context data row processorStatus des) :
    ((sessionEndHandler info processorStatus).handle context erSessionMeta pre des).Still Tables.serve
      (fun _ => True) s := by
  subst is
  have state := not_not.mp fun altered => unaltered (.inl altered)
  refine (reads_call state rfl fun _ => rfl).still.bind (fun _ _ => trivial) fun _ _ => ?_
  refine (changeEach_still unbroken (.inr known) fun changes => unaltered (.inr changes)).bind (fun _ _ => trivial)
    fun changed _ => ?_
  refine ((reads_getSession _ _ _ _).still.bind (Q := fun _ => True) (fun _ _ => trivial) fun found _ => ?_).bind
    (fun _ _ => trivial) fun _ _ => .pure trivial
  cases found with
  | none => exact .raise trivial
  | some erSessionMeta => exact .pure trivial

private theorem reads_endPrepare {row : SessionMain} (found : s.session data.id = some row)
    (first : ¬ (pre ≠ "" ∧ pre = row.status)) :
    ((sessionEndHandler info processorStatus).prepare context data pre des).Reads Tables.serve s
      ({ context with openAsynPostHandle := true },
        { row.toErSessionMeta with
          processors := s.readProcessors data.id false
          activeProcCount := data.activeProcCount <|> row.activeProcCount }) := by
  have reads := reads_getSession (s := s) data.id true false false
  rw [Tables.readSession,found] at reads
  refine reads.bind ?_
  simp only [Option.map_some]
  rw [if_neg (show ¬ (pre ≠ "" ∧ pre = row.toErSessionMeta.status) from first)]
  exact .pure

private theorem sessionEnd_atomic (known : processorStatus = "KILLED" ∨ processorStatus = "STOPPED") :
    (locked (sessionEndHandler info processorStatus) context data pre des callback).Atomic Tables.serve s ↔
      context.isBreak ∨ ∀ row, s.session data.id = some row →
        pre ≠ "" ∧ pre = row.status ∨ ¬ altersEnd s context data row processorStatus des := by
  cases found : s.session data.id with
  | none =>
    refine iff_of_true (locked_raises ?_) (.inr nofun)
    refine (reads_missing found).still.bind (fun _ _ => trivial) fun none_ same => ?_
    rw [same none_ rfl]
    exact .raise trivial
  | some row =>
    have reads := reads_getSession (s := s) data.id true false false
    rw [Tables.readSession,found] at reads
    simp only [Option.some.injEq,forall_eq']
    by_cases again : pre ≠ "" ∧ pre = row.status
    · refine iff_of_true (locked_raises ?_) (.inr (.inl again))
      refine reads.still.bind (fun _ _ => trivial) fun _ same => ?_
      rw [same _ rfl]
      simp only [Option.map_some]
      rw [if_pos (show pre ≠ "" ∧ pre = row.toErSessionMeta.status from again)]
      exact .raise trivial
    · rw [locked_atomic (reads_endPrepare found again),or_iff_right again]
      refine or_congr_right' fun unbroken => ⟨fun atomic altered => ?_,fun unaltered => ?_⟩
      · refine handled_spoilt (Q := Raised) ?_ (fun _ raised => raised.elim) atomic
        exact sessionEnd_alters (by simpa using unbroken) known rfl altered
      · exact handled_atomic (sessionEnd_still (by simpa using unbroken) known rfl unaltered)

end End

private theorem reads_sessionLine (info : MetaInfo) (repeatedCreate : StateHandler ErSessionMeta) (context : Context)
    (data : ErSessionMeta) (pre des : String) :
    ((sessionMachineWith info repeatedCreate).buildStateChangeLine context data pre des).Reads Tables.serve s
      (sessionLine context data pre des (s.readSession data.id true false false)) :=
  (reads_getSession data.id true false false).bind .pure

private theorem kill_line {row : SessionMain} (found : s.session data.id = some row) :
    (sessionLine context data "" "KILLED" (s.readSession data.id true false false)).2 = row.status ++ "_" ++ "KILLED" := by
  simp [sessionLine,Tables.readSession,found,SessionMain.toErSessionMeta]

private theorem killSession_alters (unbroken : context.isBreak = false) {row : SessionMain}
    (found : s.session data.id = some row) (early : row.status = "NEW" ∨ row.status = "WAITING_RESOURCE") :
    (killSession info context data).Alters Tables.serve (fun _ => True) s := by
  have line := reads_sessionLine (s := s) info sessionIgnoreHandler context data "" "KILLED"
  rcases early with new | waiting
  · have is : sessionHandler info sessionIgnoreHandler
        (sessionLine context data "" "KILLED" (s.readSession data.id true false false)).2 = sessionKillHandler info := by
      rw [kill_line found,new]
      rfl
    let context' := (sessionLine context data "" "KILLED" (s.readSession data.id true false false)).1.1
    have prepares : ((sessionKillHandler info).prepare context' data "" "KILLED").Reads Tables.serve s _ :=
      reads_endPrepare found fun again => again.1 rfl
    have state : s.session row.sessionId = some row := by rw [(session_spec found).2,found]
    refine changeStatus_alters line (congrArg some is) prepares unbroken ?_
    refine (sessionEnd_alters (by exact unbroken) (.inl rfl) rfl (.inl ?_)).mono fun _ _ => trivial
    exact updateSession_alters state rfl (by simp [new])
  · have is : sessionHandler info sessionIgnoreHandler
        (sessionLine context data "" "KILLED" (s.readSession data.id true false false)).2 = sessionWaitingKillHandler := by
      rw [kill_line found,waiting]
      rfl
    refine changeStatus_alters line (congrArg some is) .pure unbroken ?_
    exact (call_alters (Q := fun _ => True) rfl (updateSession_alters found rfl (by simp [waiting])) trivial).now
      (fun _ _ => trivial) fun _ _ => stays _

private theorem killSession_still {row : SessionMain} (found : s.session data.id = some row)
    (late : row.status ∉ ["NEW","WAITING_RESOURCE","ACTIVE"]) :
    (killSession info context data).Still Tables.serve (fun _ => True) s := by
  have line := reads_sessionLine (s := s) info sessionIgnoreHandler context data "" "KILLED"
  have is : sessionHandler info sessionIgnoreHandler
      (sessionLine context data "" "KILLED" (s.readSession data.id true false false)).2 = sessionIgnoreHandler := by
    rw [kill_line found,sessionHandler]
    have other {line : String} (none_ : ¬ ("_" ++ "KILLED").toList <:+ line.toList) : row.status ++ "_" ++ "KILLED" ≠ line :=
      fun same => none_ (line_suffix same)
    rw [if_neg (other (by decide)),if_neg (other (by decide)),if_neg (other (by decide)),if_neg (other (by decide)),
      if_neg (other (by decide)),if_neg (c := _ ∈ _) ?_,if_neg (other (by decide)),if_neg ?_]
    · intro here
      have waiting : row.status ∈ ["WAITING_RESOURCE"] := mem_of_mem_lines (by decide) here
      exact late (by simp_all)
    · intro here
      have begun : row.status ∈ ["NEW","ACTIVE"] := mem_of_mem_lines (by decide) here
      exact late (by simp_all)
  refine changeStatus_still line fun handler got => ?_
  cases got.symm.trans (congrArg some is)
  exact locked_still .pure (.pure trivial)

private theorem checkSessionRpcReady_still (sessionId : String) (looks : ℕ) :
    (checkSessionRpcReady sessionId looks).Still Tables.serve (fun _ => True) s := by
  induction looks with
  | zero => exact .pure trivial
  | succ looks ih =>
    refine (reads_getSession sessionId false false false).still.bind (fun _ _ => trivial) fun cur _ => ?_
    cases cur with
    | none => exact .pure trivial
    | some cur =>
      have over_ : (isOverState cur.status).Still Tables.serve (fun _ => True) s := by
        unfold isOverState
        split
        · exact .pure trivial
        split
        · exact .pure trivial
        split
        · exact .raise trivial
        · exact .raise trivial
      refine over_.bind (fun _ _ => trivial) fun ended _ => ?_
      split
      · exact .pure trivial
      split
      · exact ih
      · exact .pure trivial

private theorem killUnstarted_still (late : ∀ row, s.session data.id = some row →
      row.status ≠ "NEW" ∧ row.status ≠ "WAITING_RESOURCE") :
    (killUnstarted info context data).Still Tables.serve (fun _ => True) s := by
  have reads : (getSessionMain data.id).Reads Tables.serve s ((s.session data.id).map SessionMain.toErSessionMeta) :=
    .bind (a := s.session data.id) (reads_call rfl rfl fun _ => rfl) .pure
  cases found : s.session data.id with
  | none =>
    rw [found] at reads
    refine (reads.still.bind (Q := Raised) (fun _ _ => trivial) fun none_ same => ?_).bind (fun _ _ => trivial)
      fun _ raised => raised.elim
    rw [same none_ rfl]
    exact .raise trivial
  | some row =>
    rw [found] at reads
    have read : (getSessionMain data.id >>= notNull).Reads Tables.serve s row.toErSessionMeta := reads.bind .pure
    refine read.still.bind (fun _ _ => trivial) fun erSessionMeta same => ?_
    rw [same erSessionMeta rfl]
    split
    case isTrue inactive =>
      obtain ⟨new,waiting⟩ := late row found
      have other : row.status ≠ "ACTIVE" := inactive
      exact (killSession_still found (by simp [new,waiting,other])).bind (fun _ _ => trivial) fun _ _ => .raise trivial
    case isFalse => exact .pure trivial

private theorem killUnstarted_alters (unbroken : context.isBreak = false) {row : SessionMain}
    (found : s.session data.id = some row) (early : row.status = "NEW" ∨ row.status = "WAITING_RESOURCE") :
    (killUnstarted info context data).Alters Tables.serve Raised s := by
  have reads : (getSessionMain data.id).Reads Tables.serve s ((s.session data.id).map SessionMain.toErSessionMeta) :=
    .bind (a := s.session data.id) (reads_call rfl rfl fun _ => rfl) .pure
  rw [found] at reads
  have read : (getSessionMain data.id >>= notNull).Reads Tables.serve s row.toErSessionMeta := reads.bind .pure
  apply Alters.later read.yields
  have inactive : row.toErSessionMeta.status ≠ "ACTIVE" := by
    rcases early with is | is <;> simp [SessionMain.toErSessionMeta,is]
  rw [if_pos inactive]
  exact (killSession_alters (by exact unbroken) found early).now (fun _ _ => trivial) fun _ _ =>
    Stays.raise (Q := Raised) trivial

private theorem sessionRepeatedCreate_atomic (unbroken : context.isBreak = false) :
    ((sessionRepeatedCreateHandler info).handle context data pre des >>=
        finish (sessionRepeatedCreateHandler info) callback).Atomic Tables.serve s ↔
      ∀ row, s.session data.id = some row → row.status ≠ "NEW" ∧ row.status ≠ "WAITING_RESOURCE" := by
  constructor
  · intro atomic row found
    by_contra early
    refine handled_spoilt (Q := Raised) ?_ (fun _ raised => raised.elim) atomic
    -- the deadline is over at once
    have polls : (call .polls).Yields Tables.serve s s (.ok (0 : ℕ)) := call_succeeds (s := s) {} rfl
    apply Alters.later polls
    refine .later (a := false) ⟨rfl,rfl⟩ ?_
    exact (killUnstarted_alters unbroken found (by tauto)).now (fun _ _ => trivial) fun _ raised => raised.elim
  · intro late
    apply handled_atomic
    refine (call_still rfl).bind (fun _ _ => trivial) fun looks _ => ?_
    refine (checkSessionRpcReady_still data.id looks).bind (fun _ _ => trivial) fun ready _ => ?_
    have last : (getSession data.id true true true >>= notNull >>= fun sessionInDb => pure (context,sessionInDb) :
        Change (Context × ErSessionMeta)).Still Tables.serve (fun _ => True) s := by
      refine ((reads_getSession _ _ _ _).still.bind (Q := fun _ => True) (fun _ _ => trivial) fun found _ => ?_).bind
        (fun _ _ => trivial) fun _ _ => .pure trivial
      cases found with
      | none => exact .raise trivial
      | some erSessionMeta => exact .pure trivial
    cases ready with
    | true => exact last
    | false => exact (killUnstarted_still late).bind (fun _ _ => trivial) fun _ _ => last

private theorem getServerNodes_still (pre des : String) : (getServerNodes context data pre des).Still Tables.serve (fun _ => True) s :=
  (call_still rfl).bind (fun _ _ => trivial) fun _ _ => .pure trivial

private theorem getServerNodes_yields (pre des : String) {prepared : Context × ErSessionMeta} :
    (getServerNodes context data pre des).Yields Tables.serve s s (.ok prepared) ↔
      ∃ nodes, prepared = ({ context with serverNodes := nodes },data) := by
  constructor
  · intro ends
    rcases yields_bind.mp ends with ⟨u,nodes,_,_,is⟩ | ⟨e,_,is⟩
    · exact ⟨nodes,Except.ok.inj is⟩
    · cases is
  · rintro ⟨nodes,rfl⟩
    have read : (call .listHealthyNodes).Yields Tables.serve s s (.ok nodes) :=
      call_succeeds (s := s) { nodes := nodes } rfl
    exact yields_bind.mpr (.inl ⟨s,nodes,read,rfl,rfl⟩)

def safeSessionLine (s : Tables) (info : MetaInfo) (context : Context) (data : ErSessionMeta)
    (line pre des : String) (callback : Bool) : Prop :=
  if line = "_WAITING_RESOURCE" then s.session data.id ≠ none ∨ ¬ goesOn callback context
  else if line = "WAITING_RESOURCE_NEW" then
    ∀ nodes built, builtSession info { context with serverNodes := nodes } { data with status := "NEW" } = some built →
      ¬ altersWaiting s built
  else if line = "_NEW" then s.session data.id ≠ none ∨ processorsPerNode info data.options = none
  else if line = "NEW_NEW" then
    ∀ row, s.session data.id = some row → row.status ≠ "NEW" ∧ row.status ≠ "WAITING_RESOURCE"
  else if line = "NEW_ACTIVE" then ∀ row, s.session data.id = some row → row.status ≠ "NEW"
  else if line ∈ ["NEW_KILLED","NEW_ERROR","ACTIVE_KILLED","ACTIVE_ERROR"] then
    ∀ row, s.session data.id = some row →
      pre ≠ "" ∧ pre = row.status ∨ ¬ altersEnd s context data row "KILLED" des
  else if line = "ACTIVE_CLOSED" then
    ∀ row, s.session data.id = some row →
      pre ≠ "" ∧ pre = row.status ∨ ¬ altersEnd s context data row "STOPPED" des
  else if line ∈ ["WAITING_RESOURCE_KILLED","WAITING_RESOURCE_ERROR","WAITING_RESOURCE_CLOSED"] then
    s.write (.updateSession data.id {
      status := some des
      statusReason := some (valueOf context.statusReason) }) = s ∨ ¬ goesOn callback context
  else True

private theorem builtSession_none {nodes : List ErServerNode} :
    builtSession info { context with serverNodes := nodes } { data with status := "NEW" } = none ↔
      nodes = [] ∨ processorsPerNode info data.options = none := by
  unfold builtSession
  split
  case isTrue empty => simp [show nodes = [] from empty]
  case isFalse some_ => simp [show nodes ≠ [] from some_]

private theorem session_line_atomic {line : String} :
    (locked (sessionHandler info (sessionRepeatedCreateHandler info) line) context data pre des callback).Atomic
        Tables.serve s ↔
      context.isBreak ∨ safeSessionLine s info context data line pre des callback := by
  unfold sessionHandler safeSessionLine
  by_cases waitResource : line = "_WAITING_RESOURCE"
  · rw [if_pos waitResource,if_pos waitResource,locked_atomic .pure]
    refine or_congr_right' fun unbroken => ?_
    have plain : sessionWaitResourceHandler.handle context data pre des =
        call (.saveSession (newSessionMain data "WAITING_RESOURCE")) >>= fun _ => pure (context,data) := rfl
    rw [once_atomic plain fun _ => rfl]
    simp [saveSession_alters,Tables.refuses,newSessionMain,Option.isSome_iff_ne_none]
  rw [if_neg waitResource,if_neg waitResource]
  by_cases waitNew : line = "WAITING_RESOURCE_NEW"
  · rw [if_pos waitNew,if_pos waitNew,locked_atomic_of_still (getServerNodes_still pre des)]
    constructor
    · intro atomic
      refine or_iff_not_imp_left.mpr fun unbroken nodes => ?_
      have one := atomic _ ((getServerNodes_yields pre des).mpr ⟨nodes,rfl⟩)
      exact (sessionWaitNew_atomic (by simpa using unbroken)).mp (one.resolve_left unbroken)
    · intro safe prepared ends
      obtain ⟨nodes,rfl⟩ := (getServerNodes_yields pre des).mp ends
      refine or_iff_not_imp_left.mpr fun unbroken => ?_
      exact (sessionWaitNew_atomic (by simpa using unbroken)).mpr (safe.resolve_left unbroken nodes)
  rw [if_neg waitNew,if_neg waitNew]
  by_cases create : line = "_NEW"
  · rw [if_pos create,if_pos create,locked_atomic_of_still (getServerNodes_still pre des)]
    constructor
    · intro atomic
      refine or_iff_not_imp_left.mpr fun unbroken => ?_
      have one := atomic _ ((getServerNodes_yields pre des).mpr ⟨[⟨0,"",0⟩],rfl⟩)
      have created := (sessionCreate_atomic (by simpa using unbroken)).mp (one.resolve_left unbroken)
      rw [builtSession_none] at created
      exact created.imp_right fun fails => fails.resolve_left (by simp)
    · intro safe prepared ends
      obtain ⟨nodes,rfl⟩ := (getServerNodes_yields pre des).mp ends
      refine or_iff_not_imp_left.mpr fun unbroken => ?_
      refine (sessionCreate_atomic (by simpa using unbroken)).mpr ?_
      exact (safe.resolve_left unbroken).imp_right fun fails => builtSession_none.mpr (.inr fails)
  rw [if_neg create,if_neg create]
  by_cases again : line = "NEW_NEW"
  · rw [if_pos again,if_pos again,locked_atomic .pure]
    exact or_congr_right' fun unbroken => sessionRepeatedCreate_atomic (by simpa using unbroken)
  rw [if_neg again,if_neg again]
  by_cases active : line = "NEW_ACTIVE"
  · rw [if_pos active,if_pos active]
    exact sessionActive_atomic
  rw [if_neg active,if_neg active]
  by_cases kill : line ∈ ["NEW_KILLED","NEW_ERROR","ACTIVE_KILLED","ACTIVE_ERROR"]
  · rw [if_pos kill,if_pos kill]
    exact sessionEnd_atomic (.inl rfl)
  rw [if_neg kill,if_neg kill]
  by_cases stop : line = "ACTIVE_CLOSED"
  · rw [if_pos stop,if_pos stop]
    exact sessionEnd_atomic (.inr rfl)
  rw [if_neg stop,if_neg stop]
  by_cases waitingKill : line ∈ ["WAITING_RESOURCE_KILLED","WAITING_RESOURCE_ERROR","WAITING_RESOURCE_CLOSED"]
  · rw [if_pos waitingKill,if_pos waitingKill,locked_atomic .pure]
    refine or_congr_right' fun unbroken => ?_
    have plain : sessionWaitingKillHandler.handle context data pre des = call (.updateSession data.id {
        status := some des
        statusReason := some (valueOf context.statusReason) }) >>= fun _ =>
          pure (context,{ data with beforeStatus := pre }) := rfl
    rw [once_atomic plain fun _ => rfl]
    simp [Tables.refuses]
  · rw [if_neg waitingKill,if_neg waitingKill]
    exact iff_of_true (locked_still .pure (.pure trivial)).atomic (.inr trivial)

theorem session_change_atomic :
    ((sessionStateMachine info).changeStatus context data pre des callback).Atomic Tables.serve s ↔
      let built := sessionLine context data pre des (s.readSession data.id true false false)
      built.1.1.isBreak ∨ safeSessionLine s info built.1.1 built.1.2 built.2 pre des callback := by
  have line : ((sessionStateMachine info).buildStateChangeLine context data pre des).Reads Tables.serve s _ :=
    reads_sessionLine _ _ _ _ _ _
  rw [changeStatus_atomic line rfl]
  exact session_line_atomic

/-- For each machine, entity and line: whatever fails, a change that raises leaves the rows as
they were, if and only if it alters no row before its last step that can fail. -/
theorem status_change_atomic (info : MetaInfo) (s : Tables) (context : Context) (pre des : String) (callback : Bool) :
    (∀ data, (resourceStateMechine.changeStatus context data pre des callback).Atomic Tables.serve s ↔
      context.isBreak ∨ ¬ altersResources s (pre ++ "_" ++ des) (loaded s data)) ∧
    (∀ data, ((processorStateMachine info.useResourceDispatch).changeStatus context data pre des callback).Atomic
        Tables.serve s ↔
      let built := processorLine context data pre des (s.processor data.id)
      context.isBreak ∨
        safeProcessorLine s info.useResourceDispatch built.1.1 built.1.2 built.2 des callback) ∧
    (∀ data, ((sessionStateMachine info).changeStatus context data pre des callback).Atomic Tables.serve s ↔
      let built := sessionLine context data pre des (s.readSession data.id true false false)
      context.isBreak ∨ safeSessionLine s info built.1.1 built.1.2 built.2 pre des callback) :=
  ⟨fun _ => resource_change_atomic,fun _ => processor_change_atomic,fun _ => session_change_atomic⟩

def killedTables : Tables where
  sessions := [⟨"s","","ACTIVE",none,none,"",some 0,some 0⟩]
  options := []
  processors := []
  nextId := 0
  processorResources := []
  nodeResources := []

/-- A full pool rejects the task of a session that is killed by then. -/
theorem rejected_kill : ¬ ∀ (info : MetaInfo) (s : Tables) (context : Context) (data : ErSessionMeta) (pre des : String)
    (callback : Bool), ((sessionStateMachine info).changeStatus context data pre des callback).Atomic Tables.serve s := by
  intro atomic
  have ran : ((sessionStateMachine ⟨false,1⟩).changeStatus {} ⟨"s","","","","",none,none,[],[]⟩ "" "KILLED" false).run
      Tables.serve (fun n => { fails := n == 11 }) killedTables 0 =
        some ({ killedTables with sessions := [⟨"s","","KILLED",some "ACTIVE",some "null","",some 0,some 0⟩] },13,
          .error .rejected) := by rfl
  have same := atomic _ _ _ _ _ _ _ _ _ (yields_of_run ran)
  have rows := congrArg Tables.sessions same
  exact absurd rows (by decide)

end Eggroll.Cluster
