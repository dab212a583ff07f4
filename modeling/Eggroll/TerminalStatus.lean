import Eggroll.SessionCalls
import Eggroll.StatusWriters

/-! A terminal status of a session among everybody who writes it. A request that has met no
other status leaves it alone; one that has may store another one over it. -/
namespace Eggroll.Cluster.TerminalStatus
open Library
open Program hiding call

def terminal : List String := ["KILLED","ERROR","CLOSED","FINISHED"]

/-- A terminal status of the session is still stored. -/
def Absorbed (sessionId : String) (before after : Tables) : Prop :=
  ∀ status ∈ terminal, stored sessionId before = some status → stored sessionId after = some status

def updates (sessionId : String) : Call → Bool
  | .machine (.updateSession key patch) => key = sessionId ∧ patch.status.isSome
  | .updateSessionMain sessionMeta => sessionMeta.id = sessionId
  | _ => false

/-- The request expects no other status, and it is not a job kill of a closed session. -/
def Request.fits (status : String) : Request → Bool
  | .changeStatus _ _ pre _ _ => pre = "" ∨ pre = status
  | .killJob _ _ _ => status ≠ "CLOSED"
  | _ => true

def sawOnly (sessionId status : String) (looks : List (String × Option String)) : Bool :=
  looks.all fun look => look.1 ≠ sessionId ∨ look.2 = some status

/-- When a request may make a call: it updates a terminal status only if it expects no other one
and each of its looks has found this one. -/
def orderly (sessionId : String) (requests : ℕ → Request) (id : ℕ) (s : State) (call : Call) (_ : World) : Bool :=
  !updates sessionId call || (stored sessionId s.tables).all fun status =>
    status ∉ terminal ∨ ((requests id).fits status ∧ sawOnly sessionId status (s.looks id))

def service (sessionId : String) (requests : ℕ → Request) (id : ℕ) : Service State Call Answer Failure World :=
  (State.serve id).restrict (orderly sessionId requests id)

section
variable {info : MetaInfo} {sessionId status : String}

/-- A look at the session finds this status, and a row is the one that was asked for. -/
def Met (sessionId status : String) : (op : Op) → Ans op → Prop
  | .getSession key, main =>
    (∀ row ∈ main, row.sessionId = key) ∧ (key = sessionId → main.map SessionMain.status = some status)
  | _, _ => True

abbrev Leaves {α : Type} (sessionId status : String) (p : Change α) (Q : α → Prop) : Prop :=
  p.Heeds (Met sessionId status) (fun op => updates sessionId (.machine op) = false) Q

/-- The lines that `sessionHandler` knows. -/
def registered : List String :=
  ["_WAITING_RESOURCE","WAITING_RESOURCE_NEW","_NEW","NEW_NEW","NEW_ACTIVE","NEW_KILLED","NEW_ERROR","ACTIVE_KILLED",
    "ACTIVE_ERROR","ACTIVE_CLOSED","WAITING_RESOURCE_KILLED","WAITING_RESOURCE_ERROR","WAITING_RESOURCE_CLOSED"]

def apart : Op → Bool
  | .updateSession _ _ => false
  | _ => true

private theorem apart_updates {op : Op} (still : apart op = true) : updates sessionId (.machine op) = false := by
  cases op with
  | updateSession => cases still
  | _ => rfl

abbrev Apart {α : Type} (p : Change α) (Q : α → Prop) : Prop := p.Makes (fun op => apart op = true) Q

theorem Apart.leaves {α : Type} {p : Change α} {Q : α → Prop} (still : Apart p Q) : Leaves sessionId status p Q :=
  .of_makes still fun _ => apart_updates

private theorem quiet_apart (op : Op) (still : quiet op = true) : apart op = true := by
  cases op with
  | updateSession => cases still
  | _ => rfl

private theorem ofResources_apart (op : Op) (own : ofResources op = true) : apart op = true :=
  quiet_apart op (quiet_ofResources own)

section Processors
variable {useResourceDispatch : Bool} {context : Context} {pre des : String}

private theorem call_apart {op : Op} (still : apart op = true) : Apart (call op) fun _ => True := call_makes still

private theorem resourceIfNeeded_apart (data : ErProcessor) :
    Apart (changeResourceIfNeeded useResourceDispatch context data pre des) fun _ => True :=
  (resourceIfNeeded_makes ofResources_apart useResourceDispatch (fun _ _ => rfl) data).mono fun _ _ => trivial

private theorem readBack_apart (context : Context) (data : ErProcessor) (missing : Failure) :
    Apart (readBack context data missing) fun _ => True := by
  refine .bind (call_apart rfl) fun found _ => ?_
  cases found with
  | some row => exact .pure trivial
  | none => exact .raise

private theorem processorHandler_apart (line : String) :
    MakingHandler (fun op => apart op = true) (processorHandler useResourceDispatch line) (fun _ => True) pre des := by
  have prepared (context : Context) (data : ErProcessor) : Apart (processorPrepare context data pre des) fun _ => True :=
    processorPrepare_makes quiet_apart context data pre des
  unfold processorHandler
  split
  · refine ⟨fun _ _ => .pure trivial,fun _ _ _ => ?_,fun _ _ => rfl⟩
    exact .bind (call_apart rfl) fun _ _ => resourceIfNeeded_apart _
  split
  · refine ⟨fun _ _ => .pure trivial,fun _ data _ => ?_,fun _ _ => rfl⟩
    exact .bind (call_apart rfl) fun _ _ => .bind (resourceIfNeeded_apart _) fun _ _ => readBack_apart _ _ _
  split
  · refine ⟨fun _ _ => .pure trivial,fun _ data _ => ?_,fun _ _ => rfl⟩
    exact .bind (call_apart rfl) fun _ _ => .bind (resourceIfNeeded_apart _) fun _ _ => readBack_apart _ _ _
  split
  · refine ⟨fun _ _ => prepared _ _,fun _ data _ => ?_,fun _ _ => rfl⟩
    exact .bind (call_apart rfl) fun _ _ => resourceIfNeeded_apart _
  split
  · exact ⟨fun _ _ => prepared _ _,fun _ _ _ => .bind (call_apart rfl) fun _ _ => .pure trivial,fun _ _ => rfl⟩
  · exact ⟨fun _ _ => prepared _ _,fun _ _ _ => .pure trivial,fun _ _ => rfl⟩

private theorem processor_apart (data : ErProcessor) :
    Apart ((processorStateMachine useResourceDispatch).changeStatus context data "" des false) fun _ => True :=
  processorChange_makes quiet_apart useResourceDispatch data fun _ => ⟨_,processorHandler_apart _⟩

private theorem changeEach_apart {info : MetaInfo} (processors : List ErProcessor) :
    Apart (changeEach info des context processors) fun _ => True :=
  changeEach_makes (fun _ => processor_apart) processors

private theorem changeProcessors_apart {info : MetaInfo} (processors : List ErProcessor) :
    Apart (changeProcessors info des processors) fun _ => True := by
  induction processors with
  | nil => exact .pure trivial
  | cons processor rest ih => exact .bind (processor_apart processor) fun _ _ => ih

end Processors

private theorem call_leaves {op : Op} (leaves : updates sessionId (.machine op) = false) :
    Leaves sessionId status (call op) (Met sessionId status op) := .perform leaves

def Read (sessionId status key : String) (found : Option ErSessionMeta) : Prop :=
  (∀ erSessionMeta ∈ found, erSessionMeta.id = key) ∧ (key = sessionId → found.map ErSessionMeta.status = some status)

theorem Read.elsewhere {key : String} {erSessionMeta : ErSessionMeta} (read : Read sessionId status key (some erSessionMeta))
    (other : key ≠ sessionId) : erSessionMeta.id ≠ sessionId := by
  rw [read.1 erSessionMeta rfl]
  exact other

private theorem Read.of_row {key : String} {main : Option SessionMain} (met : Met sessionId status (.getSession key) main) :
    Read sessionId status key (main.map SessionMain.toErSessionMeta) := by
  refine ⟨fun erSessionMeta member => ?_,fun mine => ?_⟩
  · obtain ⟨row,there,rfl⟩ := Option.mem_map.mp member
    exact met.1 row there
  · rw [Option.map_map]
    exact met.2 mine

theorem Read.map {key : String} {found : Option ErSessionMeta} (read : Read sessionId status key found)
    (f : ErSessionMeta → ErSessionMeta) (same : ∀ erSessionMeta,
      (f erSessionMeta).id = erSessionMeta.id ∧ (f erSessionMeta).status = erSessionMeta.status) :
    Read sessionId status key (found.map f) := by
  refine ⟨fun erSessionMeta member => ?_,fun mine => ?_⟩
  · obtain ⟨there,is,rfl⟩ := Option.mem_map.mp member
    rw [(same there).1]
    exact read.1 there is
  · rw [Option.map_map,← read.2 mine]
    exact congrArg (found.map ·) (funext fun erSessionMeta => (same erSessionMeta).2)

private theorem getSession_leaves (key : String) (withProcessor withOption withResource : Bool) :
    Leaves sessionId status (getSession key withProcessor withOption withResource) (Read sessionId status key) := by
  rw [getSession_eq]
  refine .bind (call_leaves rfl) fun main met => ?_
  refine .mono (Apart.leaves (behindRow_row quiet_apart key withProcessor withOption withResource main)) ?_
  rintro _ ⟨processors,options,rfl⟩
  have read := (Read.of_row met).map (fun erSessionMeta => { erSessionMeta with
    processors := processors
    options := options }) fun _ => ⟨rfl,rfl⟩
  rw [Option.map_map] at read
  exact read

private theorem getSessionMain_leaves (key : String) :
    Leaves sessionId status (getSessionMain key) (Read sessionId status key) :=
  .bind (call_leaves rfl) fun _ met => .pure (.of_row met)

private theorem getSessionById_leaves (key : String) :
    Leaves sessionId status (getSessionById key) (Read sessionId status key) := by
  refine .bind (call_leaves rfl) fun optList _ => ?_
  split
  · exact .raise
  exact .bind (call_leaves rfl) fun processorList _ => .bind (getSessionMain_leaves key) fun session read =>
    .pure (read.map _ fun _ => ⟨rfl,rfl⟩)

private theorem notNull_leaves {key : String} {p : Change (Option ErSessionMeta)}
    (leaves : Leaves sessionId status p (Read sessionId status key)) :
    Leaves sessionId status (p >>= notNull) fun erSessionMeta => Read sessionId status key (some erSessionMeta) := by
  refine .bind leaves fun found read => ?_
  cases found with
  | none => exact .raise
  | some erSessionMeta => exact .pure read

theorem Read.ended {erSessionMeta : ErSessionMeta} (read : Read sessionId status sessionId (some erSessionMeta)) :
    erSessionMeta.status = status := Option.some.inj (read.2 rfl)

/-- A handler that leaves the status alone, given the sessions that come to it. -/
structure LeavingHandler (sessionId status : String) (handler : StateHandler ErSessionMeta) (I : ErSessionMeta → Prop)
    (pre des : String) : Prop where
  prepare : ∀ context data, I data → Leaves sessionId status (handler.prepare context data pre des) fun prepared =>
    I prepared.2
  handle : ∀ context data, I data → Leaves sessionId status (handler.handle context data pre des) fun _ => True

def Elsewhere (sessionId : String) (data : ErSessionMeta) : Prop := data.id ≠ sessionId

section Handlers
variable {context : Context} {pre des : String} {data : ErSessionMeta}

private theorem locked_leaves {handler : StateHandler ErSessionMeta} {I : ErSessionMeta → Prop}
    (leaving : LeavingHandler sessionId status handler I pre des) (callback : Bool) (holds : I data) :
    Leaves sessionId status (AbstractStateMachine.locked handler context data pre des callback) fun _ => True := by
  refine .bind (leaving.prepare context data holds) fun prepared holds => ?_
  split
  · exact .pure trivial
  refine .bind (Q := fun _ => True) (.bind (leaving.handle _ _ holds) fun result _ => ?_) fun result _ => ?_
  · split
    · exact .bind (call_leaves rfl) fun _ _ => .pure trivial
    · exact .pure trivial
  · unfold AbstractStateMachine.submitPost
    split
    · exact .bind (call_leaves rfl) fun _ _ => .pure trivial
    · exact .pure trivial

private theorem ignore_leaves (I : ErSessionMeta → Prop) : LeavingHandler sessionId status sessionIgnoreHandler I pre des where
  prepare _ _ holds := .pure holds
  handle _ _ _ := .pure trivial

private theorem updates_other {key : String} {patch : SessionPatch} (other : key ≠ sessionId) :
    updates sessionId (.machine (.updateSession key patch)) = false := by
  simp only [updates,other,false_and,decide_false]

private theorem saveOptions_apart (key : String) (options : Options) : Apart (saveOptions key options) fun _ => True := by
  induction options with
  | nil => exact .pure trivial
  | cons option rest ih => exact .bind (call_apart rfl) fun _ _ => ih

private theorem doInserSession_apart (context : Context) (erSessionMeta : ErSessionMeta) :
    Apart (doInserSession info context erSessionMeta) fun _ => True :=
  .bind (saveOptions_apart _ _) fun _ _ => .bind (changeEach_apart _) fun _ _ => .pure trivial

private theorem buildSession_apart (context : Context) (erSessionMeta : ErSessionMeta) :
    Apart (buildSession info context erSessionMeta) fun built => built.id = erSessionMeta.id := by
  unfold buildSession
  split
  · exact .raise
  have eggs : Apart (eggsPerNode info erSessionMeta.options) fun _ => True := by
    unfold eggsPerNode
    split
    · exact .pure trivial
    · exact .raise
  exact .bind eggs fun _ _ => .pure rfl

private theorem waitResource_leaves : LeavingHandler sessionId status sessionWaitResourceHandler (Elsewhere sessionId) pre des where
  prepare _ _ other := .pure other
  handle _ _ _ := .bind (call_leaves rfl) fun _ _ => .pure trivial

private theorem waitNew_leaves : LeavingHandler sessionId status (sessionWaitNewHandler info) (Elsewhere sessionId) pre des where
  prepare _ _ other := .bind (call_leaves rfl) fun _ _ => .pure other
  handle context data other := by
    refine .bind (buildSession_apart context { data with status := "NEW" }).leaves fun built same => ?_
    have there : built.id ≠ sessionId := by
      rw [same]
      exact other
    exact .bind (call_leaves (updates_other there)) fun _ _ => .bind (doInserSession_apart _ _).leaves fun _ _ =>
      .pure trivial

private theorem create_leaves : LeavingHandler sessionId status (sessionCreateHandler info) (Elsewhere sessionId) pre des where
  prepare _ _ other := .bind (call_leaves rfl) fun _ _ => .pure other
  handle context data _ := by
    refine .bind (getSession_leaves _ _ _ _) fun sessionInDb _ => ?_
    cases sessionInDb with
    | some sessionInDb => exact .pure trivial
    | none =>
      exact .bind (buildSession_apart _ _).leaves fun _ _ => .bind (call_leaves rfl) fun _ _ =>
        .bind (doInserSession_apart _ _).leaves fun _ _ => .pure trivial

private theorem active_leaves : LeavingHandler sessionId status sessionActiveHandler (Elsewhere sessionId) pre des where
  prepare _ _ other := .bind (notNull_leaves (getSession_leaves _ _ _ _)) fun _ read => .pure (read.elsewhere other)
  handle _ _ other := .bind (call_leaves (updates_other other)) fun _ _ =>
    .bind (notNull_leaves (getSession_leaves _ _ _ _)) fun _ _ => .pure trivial

private theorem end_leaves (processorStatus : String) :
    LeavingHandler sessionId status (sessionEndHandler info processorStatus) (Elsewhere sessionId) pre des where
  prepare _ _ other := by
    refine .bind (getSession_leaves _ _ _ _) fun found read => ?_
    cases found with
    | none => exact .raise
    | some erSessionMeta =>
      dsimp only
      split
      · exact .raise
      · exact .pure (read.elsewhere other)
  handle _ _ other := .bind (call_leaves (updates_other other)) fun _ _ => .bind (changeEach_apart _).leaves fun _ _ =>
    .bind (notNull_leaves (getSession_leaves _ _ _ _)) fun _ _ => .pure trivial

private theorem waitingKill_leaves : LeavingHandler sessionId status sessionWaitingKillHandler (Elsewhere sessionId) pre des where
  prepare _ _ other := .pure other
  handle _ _ other := .bind (call_leaves (updates_other other)) fun _ _ => .pure trivial

private theorem sessionHandler_leaves {repeatedCreate : StateHandler ErSessionMeta}
    (repeated : LeavingHandler sessionId status repeatedCreate (Elsewhere sessionId) pre des) (line : String) :
    LeavingHandler sessionId status (sessionHandler info repeatedCreate line) (Elsewhere sessionId) pre des := by
  unfold sessionHandler
  split
  · exact waitResource_leaves
  split
  · exact waitNew_leaves
  split
  · exact create_leaves
  split
  · exact repeated
  split
  · exact active_leaves
  split
  · exact end_leaves _
  split
  · exact end_leaves _
  split
  · exact waitingKill_leaves
  · exact ignore_leaves _

private theorem sessionHandler_other (repeatedCreate : StateHandler ErSessionMeta) {line : String}
    (other : line ∉ registered) : sessionHandler info repeatedCreate line = sessionIgnoreHandler := by
  simp only [registered,List.mem_cons,List.not_mem_nil,or_false,not_or] at other
  simp [sessionHandler,other]

private theorem sessionHandler_terminal (repeatedCreate : StateHandler ErSessionMeta) (ended : status ∈ terminal) (des : String) :
    sessionHandler info repeatedCreate (status ++ "_" ++ des) = sessionIgnoreHandler := by
  refine sessionHandler_other repeatedCreate fun line => ?_
  have none_begins : ∀ line ∈ registered, ∀ status ∈ terminal, ¬ status.toList <+: line.toList := by decide
  refine none_begins _ line status ended ?_
  rw [String.append_assoc,String.toList_append]
  exact List.prefix_append _ _

private theorem changeStatus_leaves {repeatedCreate : StateHandler ErSessionMeta}
    (repeated : LeavingHandler sessionId status repeatedCreate (Elsewhere sessionId) pre des) (ended : status ∈ terminal)
    (expects : data.id = sessionId → pre = "" ∨ pre = status) (callback : Bool) :
    Leaves sessionId status ((sessionMachineWith info repeatedCreate).changeStatus context data pre des callback)
      fun _ => True := by
  have leaving (line : String) (known : data.id = sessionId → line = status ++ "_" ++ des) :
      ∃ I, I data ∧ LeavingHandler sessionId status (sessionHandler info repeatedCreate line) I pre des := by
    by_cases mine : data.id = sessionId
    · refine ⟨fun _ => True,trivial,?_⟩
      rw [known mine,sessionHandler_terminal repeatedCreate ended]
      exact ignore_leaves _
    · exact ⟨Elsewhere sessionId,mine,sessionHandler_leaves repeated line⟩
  refine .bind (Q := fun built => built.1.2 = data ∧ (data.id = sessionId → built.2 = status ++ "_" ++ des)) ?_ ?_
  · refine .bind (getSession_leaves _ _ _ _) fun found read => .pure ⟨rfl,fun mine => ?_⟩
    dsimp only [sessionLine]
    rw [read.2 mine,Option.getD_some]
    split
    · rfl
    · rename_i told
      rw [(expects mine).resolve_left told]
  · rintro ⟨⟨built,_⟩,line⟩ ⟨rfl,known⟩
    obtain ⟨I,holds,handler⟩ := leaving line known
    have unlocked (key : String) : Leaves sessionId status (call (.unLock .session key)) fun _ => True :=
      .mono (call_leaves rfl) fun _ _ => trivial
    exact .tryFinally (.bind (call_leaves rfl) fun _ _ => locked_leaves handler callback holds) (unlocked _)

private theorem killUnstarted_leaves (ended : status ∈ terminal) (other : Elsewhere sessionId data) :
    Leaves sessionId status (killUnstarted info context data) fun _ => True := by
  refine .bind (notNull_leaves (getSessionMain_leaves _)) fun erSessionMeta _ => ?_
  split
  · exact .bind (changeStatus_leaves (ignore_leaves _) ended (fun mine => absurd mine other) false) fun _ _ => .raise
  · exact .pure trivial

private theorem killIf_leaves {α : Type} {f : Unit → Change α} {Q : α → Prop} (ended : status ∈ terminal)
    (other : Elsewhere sessionId data) (started : Bool) (follows : Leaves sessionId status (f ()) Q) :
    Leaves sessionId status
      (if !started then do
        let done ← killUnstarted info context data
        f done
      else f ()) Q := by
  cases started with
  | true => exact follows
  | false => exact .bind (killUnstarted_leaves ended other) fun _ _ => follows

private theorem repeatedCreate_leaves (ended : status ∈ terminal) :
    LeavingHandler sessionId status (sessionRepeatedCreateHandler info) (Elsewhere sessionId) pre des where
  prepare _ _ other := .pure other
  handle _ data other := by
    have ready (looks : ℕ) : Leaves sessionId status (checkSessionRpcReady data.id looks) fun _ => True :=
      Apart.leaves (checkSessionRpcReady_makes quiet_apart (fun _ => rfl) data.id looks)
    refine .bind (call_leaves rfl) fun looks _ => .bind (ready looks) fun started _ => killIf_leaves ended other started ?_
    exact .bind (notNull_leaves (getSession_leaves _ _ _ _)) fun _ _ => .pure trivial

private theorem change_leaves (ended : status ∈ terminal) (expects : data.id = sessionId → pre = "" ∨ pre = status) :
    Leaves sessionId status (change info context data pre des) fun _ => True :=
  .bind (changeStatus_leaves (repeatedCreate_leaves ended) ended expects false) fun _ _ => .pure trivial

private theorem killSessionById_leaves (ended : status ∈ terminal) (key : String) :
    Leaves sessionId status (killSessionById info context key) fun _ => True :=
  .bind (notNull_leaves (getSessionById_leaves key)) fun _ _ => change_leaves ended fun _ => .inl rfl

private theorem busyWait_leaves (key : String) (looks : ℕ) : Leaves sessionId status (busyWait key looks) fun _ => True := by
  induction looks with
  | zero => exact (getSession_leaves _ _ _ _).mono fun _ _ => trivial
  | succ looks ih =>
    refine .bind (getSession_leaves _ _ _ _) fun cur _ => ?_
    split
    · exact .pure trivial
    · exact ih

private theorem getSessionBusyWaiting_leaves (data : ErSessionMeta) :
    Leaves sessionId status (getSessionBusyWaiting data) fun _ => True := by
  refine .bind (call_leaves rfl) fun looks _ => .bind (busyWait_leaves _ looks) fun cur _ => ?_
  cases cur with
  | some cur => exact (getSession_leaves _ _ _ _).mono fun _ _ => trivial
  | none => exact .pure trivial

private theorem getOrCreateSession_leaves (ended : status ∈ terminal) (data : ErSessionMeta) :
    Leaves sessionId status (getOrCreateSession info context data) fun _ => True := by
  refine .bind (getSession_leaves _ _ _ _) fun sessionInDb read => ?_
  cases sessionInDb with
  | some sessionInDb =>
    dsimp only
    split
    · exact .raise
    split
    · exact .pure trivial
    · exact getSessionBusyWaiting_leaves data
  | none =>
    have other : Elsewhere sessionId data := fun mine => Option.some_ne_none _ (read.2 mine).symm
    refine .bind (changeStatus_leaves (repeatedCreate_leaves ended) ended (fun _ => .inl rfl) false) fun changed _ => ?_
    split
    · exact .pure trivial
    refine .bind (call_leaves rfl) fun actived _ => killIf_leaves ended other actived ?_
    exact (getSession_leaves _ _ _ _).mono fun _ _ => trivial

end Handlers

def Answered (sessionId status : String) : (call : Call) → Answer call → Prop
  | .machine op, answer => Met sessionId status op answer
  | .getSessionMainsByStatus _, sessions => ∀ session ∈ sessions, session.id = sessionId → session.status = status
  | _, _ => True

abbrev Spares {α : Type} (sessionId status : String) (p : Acting α) (Q : α → Prop) : Prop :=
  p.Heeds (Answered sessionId status) (fun call => updates sessionId call = false) Q

section Requests
variable {α : Type} {Q : α → Prop} {context : Context}

private theorem acting_spares {p : Change α} (leaves : Leaves sessionId status p Q) : Spares sessionId status (acting p) Q :=
  leaves.embed (fun _ _ met => met) fun _ still => still

private theorem ask_spares {call : Call} (still : updates sessionId call = false) :
    Spares sessionId status (ask call) (Answered sessionId status call) := .perform still

private theorem attempt_spares {p : Acting α} (spares : Spares sessionId status p Q) :
    Spares sessionId status (attempt p) fun _ => True :=
  spares.andThen (fun _ _ => .pure trivial) fun _ => .pure trivial

private theorem killEach_spares (ended : status ∈ terminal) (context : Context) (sessions : List ErSessionMeta) :
    Spares sessionId status (killEach info context sessions) fun _ => True := by
  induction sessions generalizing context with
  | nil => exact .pure trivial
  | cons erSessionMeta rest ih =>
    refine .andThen (Q := fun _ => True) (acting_spares ?_) (fun changed _ => ?_) fun _ => ?_
    · exact changeStatus_leaves (repeatedCreate_leaves ended) ended (fun _ => .inl rfl) false
    · exact .bind (Q := fun _ => True) (.pure trivial) fun context _ => ih context
    · exact .bind (ask_spares rfl) fun context _ => ih context

private theorem killAllSessions_spares (ended : status ∈ terminal) :
    Spares sessionId status (killAllSessions info context) fun _ => True :=
  .bind (ask_spares rfl) fun killList _ => killEach_spares ended context killList

private theorem killNodes_spares {key : String} (other : key ≠ sessionId) (statusReason : String) (sessionMeta : ErSessionMeta)
    (nodeIds : List Int) : Spares sessionId status (killNodes key statusReason sessionMeta nodeIds) fun _ => True := by
  induction nodeIds with
  | nil => exact .pure trivial
  | cons nodeId rest ih =>
    refine .bind (ask_spares rfl) fun erServerNode _ => ?_
    cases erServerNode with
    | none => exact .raise
    | some erServerNode =>
      refine .bind (attempt_spares (Q := fun _ => True) ?_) fun _ _ => ih
      exact .bind (ask_spares rfl) fun _ _ => ask_spares (updates_other other)

private theorem killLocked_spares (ended : status ∈ terminal) {key : String} (open_ : key = sessionId → status ≠ "CLOSED")
    (statusReason : String) : Spares sessionId status (killLocked info context key statusReason) fun _ => True := by
  refine .bind (ask_spares rfl) fun found _ => ?_
  cases found with
  | none => exact .pure trivial
  | some row =>
    refine .bind (acting_spares (notNull_leaves (getSessionById_leaves key))) fun sessionMeta read => ?_
    dsimp only
    split
    · exact .pure trivial
    rename_i killed
    split
    · exact .raise
    have other : key ≠ sessionId := by
      rintro rfl
      rw [read.ended] at killed
      have closed : ∀ status ∈ terminal, status ∉ ["KILLED","ERROR","FINISHED"] → status = "CLOSED" := by decide
      exact open_ rfl (closed status ended killed)
    split
    · exact acting_spares (change_leaves ended fun mine => absurd mine (read.elsewhere other))
    · exact .bind (ask_spares rfl) fun nodeIds _ => killNodes_spares other statusReason sessionMeta nodeIds

private theorem killJob_spares (ended : status ∈ terminal) {key : String} (open_ : key = sessionId → status ≠ "CLOSED")
    (statusReason : String) : Spares sessionId status (killJob info context key statusReason) fun _ => True :=
  .bind (ask_spares rfl) fun _ _ => .tryFinally (killLocked_spares ended open_ statusReason)
    (.mono (ask_spares rfl) fun _ _ => trivial)

private theorem dispatch_spares (ended : status ∈ terminal) (key sessionName : String) :
    Spares sessionId status (dispatch info key sessionName) fun _ => True := by
  refine .tryFinally (.bind (ask_spares rfl) fun _ _ => ?_) (.mono (ask_spares rfl) fun _ _ => trivial)
  refine .bind (acting_spares (notNull_leaves (getSessionMain_leaves key))) fun sessionMain read => ?_
  split
  · exact .pure trivial
  rename_i waits
  refine .bind (ask_spares rfl) fun dispatched _ => ?_
  cases dispatched with
  | none => exact .pure trivial
  | some processors =>
    refine acting_spares (change_leaves ended fun mine => ?_)
    have mine : key = sessionId := mine
    subst mine
    rw [read.ended] at waits
    have each : ∀ status ∈ terminal, status ≠ "WAITING_RESOURCE" := by decide
    exact absurd (each status ended) waits

private theorem watched_other {session : ErSessionMeta} (ended : status ∈ terminal)
    (listed : session.id = sessionId → session.status = status) (live : session.status = "ACTIVE" ∨ session.status = "NEW") :
    session.id ≠ sessionId := by
  intro mine
  have each : ∀ status ∈ terminal, status ≠ "ACTIVE" ∧ status ≠ "NEW" := by decide
  obtain ⟨active,new⟩ := each status ended
  rw [listed mine] at live
  exact live.elim active new

private theorem overdue_spares {p : Acting Unit} (spares : Spares sessionId status p fun _ => True) :
    Spares sessionId status (ask .overdue >>= fun overdue => if overdue then p else pure ()) fun _ => True := by
  refine .bind (ask_spares rfl) fun overdue _ => ?_
  split
  · exact spares
  · exact .pure trivial

private theorem deepspeedActive_spares (ended : status ∈ terminal) {session : ErSessionMeta} (other : session.id ≠ sessionId)
    (sessionProcessors : List ErProcessor) :
    Spares sessionId status (checkAndHandleDeepspeedActiveSession info session sessionProcessors) fun _ => True := by
  unfold checkAndHandleDeepspeedActiveSession
  split
  · exact killJob_spares ended (fun mine => absurd mine other) _
  split
  · refine .bind (ask_spares ?_) fun _ _ => acting_spares (changeProcessors_apart _).leaves
    simp only [updates,other,decide_false]
  · exact .pure trivial

private theorem eggpairActive_spares (ended : status ∈ terminal) (session : ErSessionMeta) (sessionProcessors : List ErProcessor) :
    Spares sessionId status (checkAndHandleEggpairActiveSession info session sessionProcessors) fun _ => True := by
  have killed (context : Context) :
      Spares sessionId status (acting (change info context session "" "ERROR")) fun _ => True :=
    acting_spares (change_leaves ended fun _ => .inl rfl)
  refine .bind (ask_spares rfl) fun timeout _ => ?_
  split
  · exact killed _
  split
  · exact overdue_spares (killed _)
  · exact .pure trivial

private theorem watch_spares (ended : status ∈ terminal) {session : ErSessionMeta}
    (listed : session.id = sessionId → session.status = status) :
    Spares sessionId status (watch info session) fun _ => True := by
  refine .bind (acting_spares (notNull_leaves (getSession_leaves _ _ _ _))) fun sessionInDb _ => ?_
  split
  · split
    · exact deepspeedActive_spares ended (watched_other ended listed (.inl ‹_›)) _
    split
    · exact overdue_spares (killJob_spares ended (fun mine => absurd mine (watched_other ended listed (.inr ‹_›))) _)
    · exact .pure trivial
  split
  · exact eggpairActive_spares ended _ _
  split
  · exact overdue_spares (acting_spares (killSessionById_leaves ended _))
  · exact .pure trivial

private theorem watchEach_spares (ended : status ∈ terminal) (sessions : List ErSessionMeta)
    (listed : ∀ session ∈ sessions, session.id = sessionId → session.status = status) :
    Spares sessionId status (watchEach info sessions) fun _ => True := by
  induction sessions with
  | nil => exact .pure trivial
  | cons session rest ih =>
    obtain ⟨first,others⟩ := List.forall_mem_cons.mp listed
    exact .bind (attempt_spares (watch_spares ended first)) fun _ _ => ih others

private theorem request_spares (ended : status ∈ terminal) (request : Request) (fits : request.fits status = true) :
    Spares sessionId status (request.program info) fun _ => True := by
  cases request with
  | changeStatus context sessionMeta pre des callback =>
    have expects : pre = "" ∨ pre = status := of_decide_eq_true fits
    exact .bind (acting_spares (changeStatus_leaves (repeatedCreate_leaves ended) ended (fun _ => expects) callback))
      fun _ _ => .pure trivial
  | getOrCreateSession context sessionMeta =>
    exact .bind (acting_spares (getOrCreateSession_leaves ended sessionMeta)) fun _ _ => .pure trivial
  | stopSession context sessionMeta | killSession context sessionMeta =>
    exact acting_spares (change_leaves ended fun _ => .inl rfl)
  | killSessionById context key => exact acting_spares (killSessionById_leaves ended key)
  | killAllSessions context => exact killAllSessions_spares ended
  | killJob context key statusReason => exact killJob_spares ended (fun _ => of_decide_eq_true fits) statusReason
  | dispatch key sessionName => exact dispatch_spares ended key sessionName
  | sessionWatcherSchedule =>
    exact attempt_spares (.bind (ask_spares rfl) fun sessions listed => watchEach_spares ended sessions listed)

end Requests

section Calls
variable {requests : ℕ → Request} {id : ℕ} {s t : State} {call : Call} {op : Op} {world : World} {env : Env}

theorem Absorbed.refl (tables : Tables) : Absorbed sessionId tables tables := fun _ _ is => is

theorem Absorbed.trans {first second third : Tables} (before : Absorbed sessionId first second)
    (after : Absorbed sessionId second third) : Absorbed sessionId first third :=
  fun status ended is => after status ended (before status ended is)

private theorem Absorbed.of_stored {before after : Tables} (same : stored sessionId after = stored sessionId before) :
    Absorbed sessionId before after := fun _ _ is => same.trans is

private theorem write_absorbed (still : updates sessionId (.machine op) = false) (tables : Tables) :
    Absorbed sessionId tables (tables.write op) := by
  cases op with
  | saveSession row =>
    intro status _ is
    obtain ⟨there,found,rfl⟩ := Option.map_eq_some_iff.mp is
    simp only [stored,Tables.session,Tables.write,List.find?_append]
    rw [Tables.session] at found
    rw [found]
    rfl
  | updateSession key patch =>
    refine .of_stored ?_
    rw [stored,stored,session_update,Option.map_map]
    refine Option.map_congr fun row there => ?_
    have same : row.sessionId = sessionId := (session_spec there).2
    simp only [Function.comp_apply,same]
    split
    · rename_i mine
      have unset : patch.status = none := by simpa [updates,mine] using still
      rw [SessionPatch.apply,unset,Option.getD_none]
    · rfl
  | _ => exact .of_stored rfl

private theorem updateSessionMain_absorbed {sessionMeta : ErSessionMeta} (other : sessionMeta.id ≠ sessionId) (tables : Tables) :
    Absorbed sessionId tables (updateSessionMain tables sessionMeta) := by
  refine .of_stored ?_
  simp only [stored,Tables.session,updateSessionMain,List.find?_map]
  have same (row : SessionMain) : (if row.sessionId = sessionMeta.id then { row with
      name := sessionMeta.name
      status := sessionMeta.status
      tag := sessionMeta.tag
      activeProcCount := sessionMeta.activeProcCount } else row).sessionId = row.sessionId := by
    split <;> rfl
  simp only [Function.comp_def,same,Option.map_map]
  refine Option.map_congr fun row there => ?_
  have mine : row.sessionId = sessionId := by simpa using List.find?_some there
  rw [if_neg fun is => other (is.symm.trans mine)]

/-- What a call has seen of the sessions, and what it does to the tables. -/
structure Served (sessionId : String) (id : ℕ) (s : State) (call : Call) (t : State)
    (answer : Except Failure (Answer call)) : Prop where
  absorbed : updates sessionId call = false → Absorbed sessionId s.tables t.tables
  looks : ∃ seen, t.looks = Function.update s.looks id (s.looks id ++ seen) ∧
    ∀ status a, sawOnly sessionId status seen → answer = .ok a → Answered sessionId status call a

theorem Served.blind {answer : Except Failure (Answer call)} (looks : t.looks = s.looks)
    (absorbed : updates sessionId call = false → Absorbed sessionId s.tables t.tables)
    (answered : ∀ status a, answer = .ok a → Answered sessionId status call a) : Served sessionId id s call t answer := by
  refine ⟨absorbed,[],?_,fun status a _ => answered status a⟩
  rw [looks,List.append_nil,Function.update_eq_self]

def isLock : Op → Bool
  | .lock _ _ | .unLock _ _ => true
  | _ => false

theorem serveMachine_other (other : isLock op = false) : State.serveMachine id s op env = match s.tables.serve op env with
      | none => none
      | some (tables,.ok a) => some ({ s.note id op with tables := tables },.ok a)
      | some (tables,.error e) => some ({ s with tables := tables },.error e) := by
  cases op with
  | lock | unLock => cases other
  | _ => rfl

private theorem machine_served {answer : Except Failure (Ans op)} (served : State.serveMachine id s op env = some (t,answer)) :
    Served sessionId id s (.machine op) t answer := by
  by_cases other : isLock op = false
  · rw [serveMachine_other other] at served
    cases answered : s.tables.serve op env with
    | none => simp [answered] at served
    | some pair =>
      obtain ⟨tables,given⟩ := pair
      rw [answered] at served
      rcases served_cases answered with ⟨rfl,e,rfl⟩ | ⟨rfl,rfl⟩
      · cases served
        exact .blind rfl (fun _ => .refl _) nofun
      · cases served
        cases op with
        | lock | unLock => cases other
        | getSession key =>
          refine ⟨fun _ => .refl _,[(key,stored key s.tables)],rfl,?_⟩
          rintro status _ saw ⟨⟩
          refine ⟨fun row there => (session_spec there).2,?_⟩
          rintro rfl
          have is : stored key s.tables = some status := by simpa [sawOnly] using saw
          exact is
        | _ => exact .blind rfl (fun still => write_absorbed still s.tables) fun _ _ _ => trivial
  · cases op with
    | lock cache key =>
      obtain ⟨lock,-,is⟩ := Option.map_eq_some_iff.mp served
      cases is
      exact .blind rfl (fun _ => .refl _) fun _ _ _ => trivial
    | unLock cache key =>
      simp only [State.serveMachine] at served
      split at served
      all_goals
        cases served
        exact .blind rfl (fun _ => .refl _) fun _ _ _ => trivial
    | _ => exact absurd rfl other

private theorem call_served {answer : Except Failure (Answer call)} (served : State.serve id s call world = some (t,answer)) :
    Served sessionId id s call t answer := by
  cases call with
  | machine op => exact machine_served served
  | lockSession key =>
    obtain ⟨lock,-,is⟩ := Option.map_eq_some_iff.mp served
    cases is
    exact .blind rfl (fun _ => .refl _) fun _ _ _ => trivial
  | getSessionMainsByStatus status =>
    simp only [State.serve] at served
    split at served
    · cases served
      exact .blind rfl (fun _ => .refl _) nofun
    · cases served
      refine ⟨fun _ => .refl _,_,rfl,?_⟩
      rintro status _ saw ⟨⟩ session listed mine
      have look := List.all_eq_true.mp saw _ (List.mem_map_of_mem listed)
      simpa [mine] using look
  | updateSessionMain sessionMeta =>
    simp only [State.serve] at served
    split at served
    · cases served
      exact .blind rfl (fun _ => .refl _) fun _ _ _ => trivial
    · cases served
      exact .blind rfl (fun still => updateSessionMain_absorbed (of_decide_eq_false still) _) fun _ _ _ => trivial
  | unlockSession | getServerNode | killJobContainers | resourceDispatch =>
    simp only [State.serve] at served
    split at served
    all_goals
      cases served
      exact .blind rfl (fun _ => .refl _) fun _ _ _ => trivial
  | nodesOf | overdue | contextLeft =>
    cases served
    exact .blind rfl (fun _ => .refl _) fun _ _ _ => trivial

end Calls

section Runs
variable {requests : ℕ → Request} {id : ℕ} {s t : State} {call : Call} {world : World}

/-- The request has met no status of the session but this one, in which it has ended. -/
def OnlyMet (sessionId : String) (requests : ℕ → Request) (id : ℕ) (status : String) (s : State) : Prop :=
  status ∈ terminal ∧ (requests id).fits status = true ∧ sawOnly sessionId status (s.looks id) = true

def contract (sessionId : String) (id : ℕ) : Contract State where
  invariant _ := True
  rely s t := t.looks id = s.looks id
  guarantee s t := Absorbed sessionId s.tables t.tables ∧ ∀ other, other ≠ id → t.looks other = s.looks other
  refl _ := rfl
  trans first second := second.trans first

theorem fit (sessionId : String) :
    Pool.Fit (fun _ => True) (contract sessionId) fun id s => s.looks id = [] where
  same _ := rfl
  others other _ _ guaranteed := guaranteed.2 _ other
  fresh relied none_yet := relied.trans none_yet

private theorem orderly_served {answer : Except Failure (Answer call)}
    (still : ∀ status, OnlyMet sessionId requests id status s → updates sessionId call = false)
    (served : service sessionId requests id s call world = some (t,answer)) :
    (contract sessionId id).guarantee s t ∧ ∀ status, OnlyMet sessionId requests id status t →
      OnlyMet sessionId requests id status s ∧ ∀ a, answer = .ok a → Answered sessionId status call a := by
  unfold service Service.restrict at served
  split at served
  case isFalse => cases served
  rename_i allowed
  have spec : Served sessionId id s call t answer := call_served served
  obtain ⟨absorbed,seen,looks,answered⟩ := spec
  refine ⟨⟨fun status ended is => ?_,fun other elsewhere => ?_⟩,fun status met => ?_⟩
  · refine absorbed ?_ status ended is
    by_contra update
    have allowed : status ∉ terminal ∨
        (requests id).fits status = true ∧ sawOnly sessionId status (s.looks id) = true := by
      simpa [orderly,update,is] using allowed
    have both := allowed.resolve_left fun other => other ended
    exact update (still status ⟨ended,both.1,both.2⟩)
  · rw [looks,Function.update_of_ne elsewhere]
  · obtain ⟨ended,fits,saw⟩ := met
    rw [looks,Function.update_self,sawOnly,List.all_append,Bool.and_eq_true] at saw
    exact ⟨⟨ended,fits,saw.1⟩,fun a is => answered status a saw.2 is⟩

theorem request_does (info : MetaInfo) (sessionId : String) (requests : ℕ → Request) (id : ℕ) (s : State) :
    ((requests id).program info).Sat (contract sessionId id) (service sessionId requests id) (fun _ _ => True) s := by
  refine Heeds.sat (A := Answered sessionId) (P := fun _ call => updates sessionId call = false)
    (L := OnlyMet sessionId requests id) (fun status s t relied met => ?_) (fun s call world t answer _ still served => ?_)
    fun status met => request_spares met.1 (requests id) met.2.1
  · obtain ⟨ended,fits,saw⟩ := met
    rw [relied] at saw
    exact ⟨ended,fits,saw⟩
  · exact ⟨trivial,orderly_served still served⟩

theorem kept (info : MetaInfo) {p : Run}
    (reached : (system info requests (service sessionId requests)).Reachable p) :
    Pool.Kept (fun _ => True) (contract sessionId) (fun id s => s.looks id = []) (service sessionId requests)
      (fun _ _ _ _ => True) p := by
  refine Pool.Kept.admitted (fit sessionId) ?_ ?_ reached
  · rintro _ ⟨tables,rfl⟩
    exact ⟨trivial,fun _ => rfl⟩
  · intro p id request admitted _ _
    obtain rfl := of_decide_eq_true admitted
    exact request_does info sessionId requests id p.shared

private theorem step_absorbed (info : MetaInfo) {p q : Run} {act : Pool.Act Request World}
    (reached : (system info requests (service sessionId requests)).Reachable p)
    (stepped : (system info requests (service sessionId requests)).step p act = some q) :
    Absorbed sessionId p.shared.tables q.shared.tables := by
  have stepped := ((System.restrict_step_iff _ _ _ _ _).mp stepped).2
  rcases (kept info reached).guaranteed (fit sessionId) stepped with same | ⟨id,guaranteed⟩
  · rw [same]
    exact .refl _
  · exact guaranteed.1

/-- In runs whose updates of a terminal status come only from requests that have met no other
one, a terminal status that is stored stays. -/
theorem terminal_absorbing (info : MetaInfo) (sessionId : String) (requests : ℕ → Request) {p q : Run}
    {acts : List (Pool.Act Request World)}
    (reached : (system info requests (service sessionId requests)).Reachable p)
    (run : (system info requests (service sessionId requests)).Run p acts q) :
    Absorbed sessionId p.shared.tables q.shared.tables := by
  have both : (system info requests (service sessionId requests)).Reachable q ∧
      Absorbed sessionId p.shared.tables q.shared.tables := by
    refine System.Run.invariant (P := fun r => (system info requests (service sessionId requests)).Reachable r ∧
      Absorbed sessionId p.shared.tables r.shared.tables) ?_ run ⟨reached,.refl _⟩
    intro r act r' here stepped
    exact ⟨here.1.extend (.single stepped),here.2.trans (step_absorbed info here.1 stepped)⟩
  exact both.2

end Runs

end

def job (status : String) : SessionMain := ⟨"job","DeepSpeed",status,none,none,"",none,none⟩

def tablesWith (status : String) (processors : List SessionProcessor) : Tables := ⟨[job status],[],processors,2,[],[]⟩

def turns (id : ℕ) (worlds : List World) : List (Pool.Act Request World) := worlds.map (.step id)

def stopping (id : ℕ) : Request :=
  if id = 0 then .stopSession {} (job "").toErSessionMeta
  else .changeStatus {} (job "").toErSessionMeta "" "ERROR" false

/-- A waiting session is stopped, and what comes behind it stays without effect. -/
theorem terminal_absorbing_stopped : ∃ p q acts,
    (system ⟨false,1⟩ stopping (service "job" stopping)).Reachable p ∧
    (system ⟨false,1⟩ stopping (service "job" stopping)).Run p acts q ∧
    stored "job" p.shared.tables = some "KILLED" ∧ stored "job" q.shared.tables = some "KILLED" := by
  have ran : ((system ⟨false,1⟩ stopping (service "job" stopping)).exec ⟨.init (tablesWith "WAITING_RESOURCE" []),fun _ => none⟩
      (.invoke 0 (stopping 0) :: turns 0 (List.replicate 6 {}))).any (fun p => decide
        (stored "job" p.shared.tables = some "KILLED" ∧
          ((system ⟨false,1⟩ stopping (service "job" stopping)).exec p
            (.invoke 1 (stopping 1) :: turns 1 (List.replicate 5 {}))).isSome)) = true := by
    decide +kernel
  obtain ⟨p,run,found⟩ := (Option.any_eq_true _ _).mp ran
  obtain ⟨killed,goes⟩ := of_decide_eq_true found
  obtain ⟨q,later⟩ := Option.isSome_iff_exists.mp goes
  have reached : (system ⟨false,1⟩ stopping (service "job" stopping)).Reachable p := ⟨_,_,⟨⟨_,rfl⟩,fun _ => rfl⟩,run⟩
  exact ⟨p,q,_,reached,later,killed,terminal_absorbing ⟨false,1⟩ "job" stopping reached later "KILLED" (by decide) killed⟩

def reviving (id : ℕ) : Request :=
  if id = 0 then .dispatch "job" "DeepSpeed" else .stopSession {} (job "").toErSessionMeta

def node : ErServerNode := ⟨1,"a",4671⟩

def worker : SessionProcessor := ⟨1,"job",1,"DeepSpeed","STOPPED",none,"",none,none,[],none⟩

def killing (_ : ℕ) : Request := .killJob {} "job" "API"

/-- A session that is stopped behind the look of the dispatch thread is `NEW` again, and a job
kill makes a `CLOSED` one `KILLED` without anybody else. -/
theorem terminal_overwritten : (∃ p q acts, (system ⟨false,1⟩ reviving State.serve).Reachable p ∧
      (system ⟨false,1⟩ reviving State.serve).Run p acts q ∧ stored "job" p.shared.tables = some "KILLED" ∧
      stored "job" q.shared.tables = some "NEW" ∧ ¬ Absorbed "job" p.shared.tables q.shared.tables) ∧
    ∃ p q acts, (system ⟨false,1⟩ killing State.serve).Reachable p ∧
      (system ⟨false,1⟩ killing State.serve).Run p acts q ∧ stored "job" p.shared.tables = some "CLOSED" ∧
      stored "job" q.shared.tables = some "KILLED" ∧ ¬ Absorbed "job" p.shared.tables q.shared.tables := by
  constructor
  · have ran : ((system ⟨false,1⟩ reviving State.serve).exec ⟨.init (tablesWith "WAITING_RESOURCE" []),fun _ => none⟩
        (.invoke 0 (reviving 0) :: turns 0 [{},{},{ dispatched := some [worker.toErProcessor] }] ++
          .invoke 1 (reviving 1) :: turns 1 (List.replicate 6 {}))).any (fun p => decide
          (stored "job" p.shared.tables = some "KILLED") && ((system ⟨false,1⟩ reviving State.serve).exec p
            (turns 0 [{},{},{},{},{ env := { nodes := [node] } },{}])).any fun q => decide
              (stored "job" q.shared.tables = some "NEW")) = true := by
      decide +kernel
    obtain ⟨p,run,found⟩ := (Option.any_eq_true _ _).mp ran
    obtain ⟨killed,goes⟩ := (Bool.and_eq_true _ _).mp found
    obtain ⟨q,later,new⟩ := (Option.any_eq_true _ _).mp goes
    have killed := of_decide_eq_true killed
    have new := of_decide_eq_true new
    refine ⟨p,q,_,⟨_,_,⟨⟨_,rfl⟩,fun _ => rfl⟩,run⟩,later,killed,new,fun absorbed => ?_⟩
    exact absurd (new.symm.trans (absorbed "KILLED" (by decide) killed)) (by decide)
  · have ran : ((system ⟨false,1⟩ killing State.serve).exec ⟨.init (tablesWith "CLOSED" [worker]),fun _ => none⟩
        (.invoke 0 (killing 0) :: turns 0 [{},{},{},{},{},{},{ erServerNode := some node },{},{}])).any (fun q => decide
          (stored "job" q.shared.tables = some "KILLED")) = true := by
      decide +kernel
    obtain ⟨q,run,killed⟩ := (Option.any_eq_true _ _).mp ran
    have killed := of_decide_eq_true killed
    refine ⟨⟨.init (tablesWith "CLOSED" [worker]),fun _ => none⟩,q,_,.start ⟨⟨_,rfl⟩,fun _ => rfl⟩,run,rfl,killed,
      fun absorbed => ?_⟩
    exact absurd (killed.symm.trans (absorbed "CLOSED" (by decide) rfl)) (by decide)

end Eggroll.Cluster.TerminalStatus
