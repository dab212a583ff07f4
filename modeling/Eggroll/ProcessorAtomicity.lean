import Eggroll.ResourceAtomicity

/-! When a status change of a processor that raises leaves the tables as they were. -/
namespace Eggroll.Cluster
open Library
open Program hiding call
open AbstractStateMachine

variable {s : Tables} {useResourceDispatch callback : Bool} {context : Context} {data : ErProcessor} {pre des : String}

def altersState (s : Tables) (data : ErProcessor) (des : String) : Prop :=
  s.write (.updateProcessor data.id (newState data des)) ≠ s

section Needed
variable {preResource desResource : String}

private theorem resourceIfNeeded_still
    (unaltered : checkNeedChangeResource useResourceDispatch data →
      ¬ altersResources s (preResource ++ "_" ++ desResource) (loaded s data)) :
    (changeResourceIfNeeded useResourceDispatch context data preResource desResource).Still Tables.serve
      (fun _ => True) s := by
  unfold changeResourceIfNeeded
  split
  case isTrue needed => exact resource_change_still (unaltered needed)
  case isFalse => exact .pure trivial

private theorem resourceIfNeeded_alters (unbroken : context.isBreak = false)
    (needed : checkNeedChangeResource useResourceDispatch data)
    (altered : altersResources s (preResource ++ "_" ++ desResource) (loaded s data)) :
    (changeResourceIfNeeded useResourceDispatch context data preResource desResource).Alters Tables.serve Raised s := by
  rw [changeResourceIfNeeded,if_pos needed]
  refine not_atomic.mp fun atomic => ?_
  rcases resource_change_atomic.mp atomic with broken | unaltered
  · simp [unbroken] at broken
  · exact unaltered altered

private theorem resourceIfNeeded_falls (unbroken : context.isBreak = false)
    (needed : checkNeedChangeResource useResourceDispatch data) :
    (changeResourceIfNeeded useResourceDispatch context data preResource desResource).Stays Tables.serve Raised := by
  rw [changeResourceIfNeeded,if_pos needed]
  exact resource_change_falls unbroken

end Needed

private theorem saveProcessor_alters (row : SessionProcessor) : s.write (.saveProcessor row) ≠ s := by
  intro same
  have longer := congrArg (fun t => t.processors.length) same
  simp [Tables.write] at longer

private theorem create_atomic (unbroken : context.isBreak = false) :
    ((processorCreateHandler useResourceDispatch).handle context data pre des >>=
        finish (processorCreateHandler useResourceDispatch) callback).Atomic Tables.serve s ↔
      ¬ (checkNeedChangeResource useResourceDispatch data ∨ goesOn callback context) := by
  by_cases needed : checkNeedChangeResource useResourceDispatch data
  · refine iff_of_false (fun atomic => ?_) fun undone => undone (.inl needed)
    refine handled_spoilt (Q := Raised) ?_ (fun _ raised => raised.elim) atomic
    refine (call_alters (Q := fun _ => True) rfl (saveProcessor_alters _) trivial).now
      (fun _ _ => trivial) fun processorId _ => ?_
    exact resourceIfNeeded_falls unbroken needed
  · have rest (processorId : Int) : changeResourceIfNeeded useResourceDispatch context
        { data with id := processorId } "init" "pre_allocated" = pure (context,{ data with id := processorId }) :=
      if_neg (by exact needed)
    have plain : (processorCreateHandler useResourceDispatch).handle context data pre des =
        call (.saveProcessor data.toRow) >>= fun processorId => pure (context,{ data with id := processorId }) := by
      simp only [processorCreateHandler,rest]
    rw [once_atomic plain fun _ => rfl]
    simp [needed,Tables.refuses,saveProcessor_alters]

/-- The handlers that store the new state, change the resources and read the row again. -/
def storeAndRead (useResourceDispatch : Bool) (context : Context) (data : ErProcessor)
    (des preResource desResource : String) (missing : Failure) : Change (Context × ErProcessor) := do
  updateState data des
  let changed ← changeResourceIfNeeded useResourceDispatch context data preResource desResource
  readBack changed.1 changed.2 missing

section Stored
variable {preResource desResource : String} {missing : Failure}

def altersStored (s : Tables) (useResourceDispatch : Bool) (data : ErProcessor)
    (des preResource desResource : String) : Prop :=
  altersState s data des ∨ checkNeedChangeResource useResourceDispatch data ∧
    altersResources s (preResource ++ "_" ++ desResource) (loaded s data)

private theorem storeAndRead_still (unaltered : ¬ altersStored s useResourceDispatch data des preResource desResource) :
    (storeAndRead useResourceDispatch context data des preResource desResource missing).Still Tables.serve
      (fun _ => True) s := by
  have state := not_not.mp fun altered => unaltered (.inl altered)
  refine (call_still state).bind (fun _ _ => trivial) fun _ _ => ?_
  refine (resourceIfNeeded_still fun needed altered => unaltered (.inr ⟨needed,altered⟩)).bind (fun _ _ => trivial)
    fun changed _ => ?_
  refine (call_still rfl).bind (fun _ _ => trivial) fun found _ => ?_
  cases found with
  | none => exact .raise trivial
  | some row => exact .pure trivial

private theorem storeAndRead_alters (unbroken : context.isBreak = false)
    (altered : altersStored s useResourceDispatch data des preResource desResource) :
    (storeAndRead useResourceDispatch context data des preResource desResource missing).Alters Tables.serve Raised s := by
  have last (changed : Context × ErProcessor) : (readBack changed.1 changed.2 missing).Stays Tables.serve Raised :=
    (call_falls rfl).bind (fun _ _ => trivial) fun _ raised => raised.elim
  by_cases state : altersState s data des
  · refine (call_alters (Q := fun _ => True) rfl state trivial).now (fun _ _ => trivial) fun _ _ => ?_
    exact (stays _).bind (fun _ _ => trivial) fun changed _ => last changed
  · obtain ⟨needed,resources⟩ := altered.resolve_left state
    apply Alters.later (reads_call (not_not.mp state) rfl fun _ => rfl).yields
    exact (resourceIfNeeded_alters unbroken needed resources).now (fun _ raised => raised) fun _ raised => raised.elim

private theorem stored_atomic {handler : StateHandler ErProcessor} (unbroken : context.isBreak = false)
    (is : handler.handle context data pre des =
      storeAndRead useResourceDispatch context data des preResource desResource missing) :
    (handler.handle context data pre des >>= finish handler callback).Atomic Tables.serve s ↔
      ¬ altersStored s useResourceDispatch data des preResource desResource := by
  constructor
  · intro atomic altered
    refine handled_spoilt (Q := Raised) ?_ (fun _ raised => raised.elim) atomic
    rw [is]
    exact storeAndRead_alters unbroken altered
  · intro unaltered
    apply handled_atomic
    rw [is]
    exact storeAndRead_still unaltered

end Stored

private theorem newStop_atomic (unbroken : context.isBreak = false) :
    ((processorStateNewStopHandler useResourceDispatch).handle context data pre des >>=
        finish (processorStateNewStopHandler useResourceDispatch) callback).Atomic Tables.serve s ↔
      ¬ altersStored s useResourceDispatch data des "pre_allocated" "allocate_failed" ∨
        ¬ (checkNeedChangeResource useResourceDispatch data ∨ goesOn callback context) := by
  by_cases needed : checkNeedChangeResource useResourceDispatch data
  · simp only [needed,true_or,not_true_eq_false,or_false]
    constructor
    · intro atomic altered
      refine handled_spoilt (Q := Raised) ?_ (fun _ raised => raised.elim) atomic
      by_cases state : altersState s data des
      · exact (call_alters (Q := fun _ => True) rfl state trivial).now (fun _ _ => trivial) fun _ _ =>
          resourceIfNeeded_falls unbroken needed
      · apply Alters.later (reads_call (not_not.mp state) rfl fun _ => rfl).yields
        exact resourceIfNeeded_alters unbroken needed (altered.resolve_left state).2
    · intro unaltered
      have state := not_not.mp fun altered => unaltered (.inl altered)
      exact handled_atomic ((call_still state).bind (fun _ _ => trivial) fun _ _ =>
        resourceIfNeeded_still fun needed altered => unaltered (.inr ⟨needed,altered⟩))
  · have plain : (processorStateNewStopHandler useResourceDispatch).handle context data pre des =
        updateState data des >>= fun _ => pure (context,data) := by
      have rest : changeResourceIfNeeded useResourceDispatch context data "pre_allocated" "allocate_failed" =
        pure (context,data) := if_neg needed
      simp only [processorStateNewStopHandler,rest]
    have only : altersStored s useResourceDispatch data des "pre_allocated" "allocate_failed" ↔ altersState s data des := by
      simp [altersStored,needed]
    rw [once_atomic plain fun _ => rfl]
    simp [only,needed,altersState,Tables.refuses]

/-- What `processorPrepare` gives. -/
def preparedProcessor (s : Tables) (context : Context) (data : ErProcessor) : ErProcessor :=
  context.processorInDb.getD (((s.processor data.id).map SessionProcessor.toErProcessor).getD data)

private theorem reads_processorPrepare (context : Context) (data : ErProcessor) (pre des : String) : (processorPrepare context data pre des).Reads Tables.serve s
    (context,preparedProcessor s context data) := by
  unfold processorPrepare preparedProcessor
  cases context.processorInDb with
  | some processorInDb => exact .pure
  | none =>
    refine .bind (a := s.processor data.id) (reads_call rfl rfl fun _ => rfl) ?_
    cases s.processor data.id with
    | some row => exact .pure
    | none => exact .pure

private theorem reads_processorLine (useResourceDispatch : Bool) (context : Context) (data : ErProcessor) (pre des : String) :
    ((processorStateMachine useResourceDispatch).buildStateChangeLine context data pre des).Reads Tables.serve s
      (processorLine context data pre des (s.processor data.id)) :=
  .bind (a := s.processor data.id) (reads_call rfl rfl fun _ => rfl) .pure

def safeProcessorLine (s : Tables) (useResourceDispatch : Bool) (context : Context) (data : ErProcessor)
    (line des : String) (callback : Bool) : Prop :=
  if line = "_NEW" then ¬ (checkNeedChangeResource useResourceDispatch data ∨ goesOn callback context)
  else if line = "NEW_RUNNING" then ¬ altersStored s useResourceDispatch data des "pre_allocated" "allocated"
  else if line ∈ ["RUNNING_FINISHED","RUNNING_STOPPED","RUNNING_KILLED","RUNNING_ERROR"] then
    ¬ altersStored s useResourceDispatch data des "allocated" "return"
  else if line ∈ ["NEW_FINISHED","NEW_STOPPED","NEW_KILLED","NEW_ERROR"] then
    ¬ altersStored s useResourceDispatch (preparedProcessor s context data) des "pre_allocated" "allocate_failed" ∨
      ¬ (checkNeedChangeResource useResourceDispatch (preparedProcessor s context data) ∨ goesOn callback context)
  else True

private theorem invalid_still : (locked processorStateInvalidHandler context data pre des callback).Still Tables.serve
    (fun _ => True) s := by
  have prepares : (processorStateInvalidHandler.prepare context data pre des).Reads Tables.serve s _ :=
    reads_processorPrepare context data pre des
  exact locked_still prepares ((call_still rfl).bind (fun _ _ => trivial) fun _ _ => .pure trivial)

private theorem ignored_still : (locked processorStateIgnoreHandler context data pre des callback).Still Tables.serve
    (fun _ => True) s := by
  have prepares : (processorStateIgnoreHandler.prepare context data pre des).Reads Tables.serve s _ :=
    reads_processorPrepare context data pre des
  exact locked_still prepares (.pure trivial)

private theorem processor_line_atomic {line : String} :
    (locked (processorHandler useResourceDispatch line) context data pre des callback).Atomic Tables.serve s ↔
      context.isBreak ∨ safeProcessorLine s useResourceDispatch context data line des callback := by
  unfold processorHandler safeProcessorLine
  by_cases create : line = "_NEW"
  · rw [if_pos create,if_pos create,locked_atomic .pure]
    exact or_congr_right' fun unbroken => create_atomic (by simpa using unbroken)
  rw [if_neg create,if_neg create]
  by_cases running : line = "NEW_RUNNING"
  · rw [if_pos running,if_pos running,locked_atomic .pure]
    exact or_congr_right' fun unbroken => stored_atomic (by simpa using unbroken) rfl
  rw [if_neg running,if_neg running]
  by_cases stop : line ∈ ["RUNNING_FINISHED","RUNNING_STOPPED","RUNNING_KILLED","RUNNING_ERROR"]
  · rw [if_pos stop,if_pos stop,locked_atomic .pure]
    exact or_congr_right' fun unbroken => stored_atomic (by simpa using unbroken) rfl
  rw [if_neg stop,if_neg stop]
  by_cases newStop : line ∈ ["NEW_FINISHED","NEW_STOPPED","NEW_KILLED","NEW_ERROR"]
  · rw [if_pos newStop,if_pos newStop,locked_atomic (reads_processorPrepare context data pre des)]
    exact or_congr_right' fun unbroken => newStop_atomic (by simpa using unbroken)
  rw [if_neg newStop,if_neg newStop]
  refine iff_of_true ?_ (.inr trivial)
  by_cases invalid : line ∈ ["KILLED_RUNNING","STOPPED_RUNNING","ERROR_RUNNING","_RUNNING"]
  · rw [if_pos invalid]
    exact invalid_still.atomic
  · rw [if_neg invalid]
    exact ignored_still.atomic

theorem processor_change_atomic :
    ((processorStateMachine useResourceDispatch).changeStatus context data pre des callback).Atomic Tables.serve s ↔
      let built := processorLine context data pre des (s.processor data.id)
      built.1.1.isBreak ∨
        safeProcessorLine s useResourceDispatch built.1.1 built.1.2 built.2 des callback := by
  rw [changeStatus_atomic (reads_processorLine _ _ _ _ _) rfl]
  exact processor_line_atomic

theorem processor_change_ensures (unbroken : context.isBreak = false) :
    ((processorStateMachine useResourceDispatch).changeStatus context data pre des callback).Ensures Tables.serve
      Unbroken := by
  have resources (context : Context) (data : ErProcessor) (pre des : String) (unbroken : context.isBreak = false) :
      (changeResourceIfNeeded useResourceDispatch context data pre des).Ensures Tables.serve Unbroken := by
    unfold changeResourceIfNeeded
    split
    · exact resource_change_ensures unbroken
    · exact .pure unbroken
  have read (changed : Context × ErProcessor) (missing : Failure) (unbroken : Unbroken changed) :
      (readBack changed.1 changed.2 missing).Ensures Tables.serve Unbroken := by
    refine .after fun found => ?_
    cases found with
    | some row => exact .pure unbroken
    | none => exact .raise
  have prepare (context : Context) (data : ErProcessor) (pre des : String) (unbroken : context.isBreak = false) :
      (processorPrepare context data pre des).Ensures Tables.serve Unbroken := by
    unfold processorPrepare
    split
    · exact .pure unbroken
    · refine .after fun found => ?_
      cases found with
      | some row => exact .pure unbroken
      | none => exact .pure unbroken
  refine changeStatus_ensures (P := fun built => built.1.1.isBreak = false) (.after fun _ => .pure unbroken)
    fun built handler known found => ?_
  cases found
  unfold processorHandler
  split
  · exact locked_ensures (.pure known) fun prepared unbroken => .after fun _ => resources _ _ _ _ unbroken
  split
  · exact locked_ensures (.pure known) fun prepared unbroken =>
      .after fun _ => (resources _ _ _ _ unbroken).bind fun changed kept => read changed _ kept
  split
  · exact locked_ensures (.pure known) fun prepared unbroken =>
      .after fun _ => (resources _ _ _ _ unbroken).bind fun changed kept => read changed _ kept
  split
  · exact locked_ensures (prepare _ _ pre des known) fun prepared unbroken => .after fun _ => resources _ _ _ _ unbroken
  split
  · exact locked_ensures (prepare _ _ pre des known) fun prepared unbroken => .after fun _ => .pure unbroken
  · exact locked_ensures (prepare _ _ pre des known) fun prepared unbroken => .pure unbroken

/-- Whether a change from what is stored to `NEW`, `KILLED` or `STOPPED` has a line of its own. -/
def changesProcessor (s : Tables) (des : String) (processor : ErProcessor) : Prop :=
  let stored := ((s.processor processor.id).map SessionProcessor.status).getD ""
  if des = "NEW" then stored = "" else stored = "NEW" ∨ stored = "RUNNING"

private theorem line_left {a b des : String} : a ++ "_" ++ des = b ++ "_" ++ des ↔ a = b := by
  constructor
  · intro same
    have lists := congrArg String.toList same
    simp only [String.toList_append,List.append_assoc,List.append_cancel_right_eq] at lists
    exact String.toList_injective lists
  · exact fun same => by rw [same]

theorem line_suffix {a des line : String} (same : a ++ "_" ++ des = line) : ("_" ++ des).toList <:+ line.toList := by
  refine ⟨a.toList,?_⟩
  rw [← same]
  simp

private theorem mem_lines {a b des : String} {lines : List String} (inside : b ++ "_" ++ des ∈ lines)
    (only : ∀ line ∈ lines, ("_" ++ des).toList <:+ line.toList → line = b ++ "_" ++ des) :
    a ++ "_" ++ des ∈ lines ↔ a = b := by
  constructor
  · exact fun here => line_left.mp (only _ here (line_suffix rfl))
  · exact fun same => same ▸ inside

theorem mem_of_mem_lines {a des : String} {from_ lines : List String}
    (only : ∀ line ∈ lines, ("_" ++ des).toList <:+ line.toList → ∃ b ∈ from_, line = b ++ "_" ++ des)
    (here : a ++ "_" ++ des ∈ lines) : a ∈ from_ := by
  obtain ⟨b,inside,same⟩ := only _ here (line_suffix rfl)
  rw [line_left.mp same]
  exact inside

private theorem not_mem_lines {a des : String} {lines : List String}
    (none : ∀ line ∈ lines, ¬ ("_" ++ des).toList <:+ line.toList) : a ++ "_" ++ des ∉ lines :=
  fun here => none _ here (line_suffix rfl)

private theorem processorHandler_new (useResourceDispatch : Bool) (stored : String) :
    processorHandler useResourceDispatch (stored ++ "_" ++ "NEW") =
      if stored = "" then processorCreateHandler useResourceDispatch else processorStateIgnoreHandler := by
  have create : stored ++ "_" ++ "NEW" = "_NEW" ↔ stored = "" :=
    line_left (b := "")
  have running : stored ++ "_" ++ "NEW" ≠ "NEW_RUNNING" := fun same => absurd (line_suffix same) (by decide)
  unfold processorHandler
  simp only [create,if_neg running]
  rw [if_neg (not_mem_lines (by decide)),if_neg (not_mem_lines (by decide)),if_neg (not_mem_lines (by decide))]

theorem processorHandler_end (useResourceDispatch : Bool) (stored : String) {des : String} (ends : des = "KILLED" ∨ des = "STOPPED") :
    processorHandler useResourceDispatch (stored ++ "_" ++ des) =
      if stored = "RUNNING" then processorStatusRunningStopHandler useResourceDispatch
      else if stored = "NEW" then processorStateNewStopHandler useResourceDispatch
      else processorStateIgnoreHandler := by
  obtain ⟨create,running,stop,newStop,invalid⟩ : stored ++ "_" ++ des ≠ "_NEW" ∧
      stored ++ "_" ++ des ≠ "NEW_RUNNING" ∧
      (stored ++ "_" ++ des ∈ ["RUNNING_FINISHED","RUNNING_STOPPED","RUNNING_KILLED","RUNNING_ERROR"] ↔
        stored = "RUNNING") ∧
      (stored ++ "_" ++ des ∈ ["NEW_FINISHED","NEW_STOPPED","NEW_KILLED","NEW_ERROR"] ↔ stored = "NEW") ∧
      stored ++ "_" ++ des ∉ ["KILLED_RUNNING","STOPPED_RUNNING","ERROR_RUNNING","_RUNNING"] := by
    rcases ends with rfl | rfl
    all_goals
      exact ⟨fun same => absurd (line_suffix same) (by decide),fun same => absurd (line_suffix same) (by decide),
        mem_lines (by decide) (by decide),mem_lines (by decide) (by decide),not_mem_lines (by decide)⟩
  unfold processorHandler
  rw [if_neg create,if_neg running,if_neg invalid]
  simp only [stop,newStop]

theorem processor_spec {processorId : Int} {row : SessionProcessor} (found : s.processor processorId = some row) :
    row ∈ s.processors ∧ row.processorId = processorId :=
  ⟨List.mem_of_find?_eq_some found,by simpa using List.find?_some found⟩

private theorem altersState_of_status {row : SessionProcessor} (found : s.processor data.id = some row) (other : row.status ≠ des) :
    altersState s data des := by
  intro same
  obtain ⟨member,id⟩ := processor_spec found
  have rows := congrArg Tables.processors same
  have each := List.map_inj_left.mp (rows.trans (List.map_id _).symm) row member
  rw [if_pos id] at each
  exact other (congrArg SessionProcessor.status each).symm

private theorem stop_alters (data : ErProcessor) {row : SessionProcessor} (found : s.processor data.id = some row) (other : row.status ≠ des)
    (next : Unit → Change (Context × ErProcessor)) :
    (updateState data des >>= next).Alters Tables.serve (fun _ => True) s :=
  (call_alters (Q := fun _ => True) rfl (altersState_of_status found other) trivial).now (fun _ _ => trivial) fun _ _ => stays _

theorem processor_alters (unbroken : context.isBreak = false) (known : des = "NEW" ∨ des = "KILLED" ∨ des = "STOPPED")
    (changes : changesProcessor s des data) :
    ((processorStateMachine useResourceDispatch).changeStatus context data "" des false).Alters Tables.serve
      (fun _ => True) s := by
  have line := reads_processorLine (s := s) useResourceDispatch context data "" des
  have other (handler : StateHandler ErProcessor) (prepared : Context × ErProcessor)
      (is : processorHandler useResourceDispatch (((s.processor data.id).map SessionProcessor.status).getD "" ++ "_" ++ des) =
        handler)
      (prepares : (handler.prepare (processorLine context data "" des (s.processor data.id)).1.1
        (processorLine context data "" des (s.processor data.id)).1.2 "" des).Reads Tables.serve s prepared)
      (kept : prepared.1.isBreak = false)
      (altered : (handler.handle prepared.1 prepared.2 "" des).Alters Tables.serve (fun _ => True) s) :
      ((processorStateMachine useResourceDispatch).changeStatus context data "" des false).Alters Tables.serve
        (fun _ => True) s := changeStatus_alters line (congrArg some is) prepares kept altered
  by_cases new : des = "NEW"
  · subst new
    simp only [changesProcessor,if_true] at changes
    refine other _ _ ((processorHandler_new _ _).trans (if_pos changes)) .pure unbroken ?_
    exact (call_alters (Q := fun _ => True) rfl (saveProcessor_alters _) trivial).now (fun _ _ => trivial) fun _ _ => stays _
  · have ends := processorHandler_end useResourceDispatch
      (((s.processor data.id).map SessionProcessor.status).getD "") (known.resolve_left new)
    simp only [changesProcessor,if_neg new] at changes
    cases found : s.processor data.id with
    | none => simp [found] at changes
    | some row =>
      simp only [found,Option.map_some,Option.getD_some] at changes ends
      have differs : row.status ≠ des := by
        rintro rfl
        rcases changes with is | is <;> rcases known.resolve_left new with ends | ends <;>
          exact absurd (is.symm.trans ends) (by decide)
      have state : s.processor row.processorId = some row := by rw [(processor_spec found).2,found]
      by_cases running : row.status = "RUNNING"
      · rw [if_pos running] at ends
        refine other _ _ (by simpa [found] using ends) .pure unbroken ?_
        exact stop_alters (processorLine context data "" des (s.processor data.id)).1.2 found differs _
      · rw [if_neg running,if_pos (changes.resolve_right running)] at ends
        refine other _ _ (by simpa [found] using ends) (reads_processorPrepare _ _ "" des) unbroken ?_
        have prepared : preparedProcessor s (processorLine context data "" des (s.processor data.id)).1.1
            (processorLine context data "" des (s.processor data.id)).1.2 = row.toErProcessor := by
          simp [preparedProcessor,processorLine,found]
        rw [prepared]
        exact stop_alters row.toErProcessor state differs _

theorem processor_unaltered (useResourceDispatch : Bool) (unbroken : context.isBreak = false) (known : des = "NEW" ∨ des = "KILLED" ∨ des = "STOPPED")
    (keeps : ¬ changesProcessor s des data) :
    ((processorStateMachine useResourceDispatch).changeStatus context data "" des false).Still Tables.serve
        (fun _ => True) s ∧
      ∃ result, Unbroken result ∧
        ((processorStateMachine useResourceDispatch).changeStatus context data "" des false).Yields Tables.serve
          s s (.ok result) := by
  have line := reads_processorLine (s := s) useResourceDispatch context data "" des
  have is : processorHandler useResourceDispatch (((s.processor data.id).map SessionProcessor.status).getD "" ++ "_" ++ des) =
      processorStateIgnoreHandler := by
    unfold changesProcessor at keeps
    by_cases new : des = "NEW"
    · subst new
      exact (processorHandler_new _ _).trans (if_neg (by simpa using keeps))
    · simp only [if_neg new,not_or] at keeps
      exact (processorHandler_end _ _ (known.resolve_left new)).trans
        ((if_neg keeps.2).trans (if_neg keeps.1))
  constructor
  · refine changeStatus_still line fun handler found => ?_
    cases found.symm.trans (congrArg some is)
    exact ignored_still
  · let built := processorLine context data "" des (s.processor data.id)
    have prepares : (processorStateIgnoreHandler.prepare built.1.1 built.1.2 "" des).Reads Tables.serve s
        (built.1.1,preparedProcessor s built.1.1 built.1.2) := reads_processorPrepare _ _ "" des
    refine ⟨(built.1.1,preparedProcessor s built.1.1 built.1.2),unbroken,?_⟩
    exact changeStatus_yields line (congrArg some is) prepares unbroken ⟨rfl,rfl⟩

end Eggroll.Cluster
