import Eggroll.ChangeCalls

/-! Killing a job (`JobServiceHandler.killJob`), under the lock of its session: the kill requests
to the nodes of its processors and the status of the session, whatever call fails. -/
namespace Eggroll.Cluster.JobKill
open Library
open Program hiding call

/-- The calls that `killJob` makes itself, by their places in the code. -/
inductive Call
  | getById
  | listOptions
  | listProcessors
  | getSessionMain
  | getServerNode (nodeId : Int)
  | killJobContainers (nodeId : Int)
  | update (nodeId : Int)
deriving Repr, DecidableEq

inductive Failure
  | sql
  | illegalState
  | nullPointer
  | change (failure : Cluster.Failure)
deriving Repr, DecidableEq

/-- The table of nodes, which calls fail, and what the calls of the session machine meet. -/
structure World where
  serverNodes : List ErServerNode
  fails : Call → Bool
  env : ℕ → Env

/-- A `KillContainersRequest` that a node has answered. -/
structure KillContainersRequest where
  erServerNode : ErServerNode
  sessionId : String
  containers : List Int
deriving Repr, DecidableEq

structure State where
  tables : Tables
  killed : List KillContainersRequest
deriving Repr, DecidableEq

/-- The order in which the nodes of the processors come in the map. -/
structure Order (processors : List SessionProcessor) where
  nodeIds : List Int
  nodup : nodeIds.Nodup
  mem : ∀ nodeId, nodeId ∈ nodeIds ↔ nodeId ∈ processors.map SessionProcessor.serverNodeId

section
variable (world : World) (info : MetaInfo)

/-- `SessionMainService.getSession(sessionId)`; a second option of one name is refused. -/
def getSession (sessionId : String) (tables : Tables) : Except Failure (Option ErSessionMeta) :=
  if world.fails .listOptions then .error .sql
  else if ¬ ((tables.optionsOf sessionId).map SessionOption.name).Nodup then .error .illegalState
  else if world.fails .listProcessors then .error .sql
  else if world.fails .getSessionMain then .error .sql
  else .ok ((tables.session sessionId).map fun row => { row.toErSessionMeta with
    options := (tables.optionsOf sessionId).map fun option => (option.name,option.data)
    processors := (tables.processorsOf sessionId).map SessionProcessor.toErProcessor })

/-- `serverNodeService.getById(nodeId).toErServerNode()`. -/
def getServerNode (nodeId : Int) : Except Failure ErServerNode :=
  if world.fails (.getServerNode nodeId) then .error .sql
  else match world.serverNodes.find? fun erServerNode => erServerNode.id = nodeId with
    | none => .error .nullPointer
    | some erServerNode => .ok erServerNode

def target (statusReason : String) : String := if statusReason = "API" then "KILLED" else "ERROR"

/-- The body of the `try`; what fails in it is logged. -/
def killContainers (sessionId : String) (sessionMeta : ErSessionMeta) (statusReason : String)
    (erServerNode : ErServerNode) (nodeId : Int) (s : State) : State :=
  let processors := sessionMeta.processors.filter fun processor => processor.serverNodeId = nodeId
  if world.fails (.killJobContainers nodeId) then s
  else
    let killed := s.killed ++ [⟨erServerNode,sessionId,processors.map ErProcessor.id⟩]
    if world.fails (.update nodeId) then { s with killed := killed }
    else ⟨s.tables.write (.updateSession sessionId {
      statusReason := some statusReason
      beforeStatus := some sessionMeta.status
      status := some (target statusReason) }),killed⟩

def killNodes (sessionId : String) (sessionMeta : ErSessionMeta) (statusReason : String) :
    List Int → State → Except Failure Unit × State
  | [], s => (.ok (),s)
  | nodeId :: rest, s =>
    match getServerNode world nodeId with
    | .error failure => (.error failure,s)
    | .ok erServerNode =>
      killNodes sessionId sessionMeta statusReason rest
        (killContainers world sessionId sessionMeta statusReason erServerNode nodeId s)

/-- The change of a session that waits for resources; its lock is free, so that no call waits. -/
def changeToError (sessionMeta : ErSessionMeta) (statusReason : String) (s : State) : Except Failure Unit × State :=
  match ((sessionStateMachine info).changeStatus
      { beforeStatus := some sessionMeta.status, statusReason := some statusReason }
      sessionMeta "WAITING_RESOURCE" "ERROR" false).run Tables.serve world.env s.tables 0 with
  | some (tables,_,.ok _) => (.ok (),{ s with tables := tables })
  | some (tables,_,.error failure) => (.error (.change failure),{ s with tables := tables })
  | none => (.error .nullPointer,s)

def killJob (sessionId statusReason : String) (tables : Tables) (order : Order (tables.processorsOf sessionId)) :
    Except Failure Unit × State :=
  let s : State := ⟨tables,[]⟩
  if world.fails .getById then (.error .sql,s)
  else if tables.session sessionId = none then (.ok (),s)
  else match getSession world sessionId tables with
    | .error failure => (.error failure,s)
    | .ok none => (.error .nullPointer,s)
    | .ok (some sessionMeta) =>
      if sessionMeta.status ∈ ["KILLED","ERROR","FINISHED"] then (.ok (),s)
      else if sessionMeta.status = "" then (.error .nullPointer,s)
      else if sessionMeta.status = "WAITING_RESOURCE" then changeToError world info sessionMeta statusReason s
      else killNodes world sessionId sessionMeta statusReason order.nodeIds s

end

def requestFor (sessionId : String) (tables : Tables) (erServerNode : ErServerNode) : KillContainersRequest :=
  ⟨erServerNode,sessionId,((tables.processorsOf sessionId).filter fun row => row.serverNodeId = erServerNode.id).map
    SessionProcessor.processorId⟩

/-- The kill has raised, or the session is over and every node has got its request. -/
def TakesEffect (sessionId statusReason : String) (tables : Tables) : Except Failure Unit × State → Prop
  | (.error _,_) => True
  | (.ok _,after) =>
    (after.tables.session sessionId).map SessionMain.status = some (target statusReason) ∧
      ∀ row ∈ tables.processorsOf sessionId, ∃ erServerNode : ErServerNode, erServerNode.id = row.serverNodeId ∧
        requestFor sessionId tables erServerNode ∈ after.killed

def nonTerminal : List String := ["WAITING_RESOURCE","PREPARE","NEW","ACTIVE"]

section
variable (world : World) (sessionId : String) (tables : Tables)

/-- The session cannot be read. -/
def ReadFails : Prop :=
  world.fails .getById ∨ world.fails .listOptions ∨ ¬ ((tables.optionsOf sessionId).map SessionOption.name).Nodup ∨
    world.fails .listProcessors ∨ world.fails .getSessionMain

/-- The node cannot be read. -/
def NodeFails (nodeId : Int) : Prop :=
  world.fails (.getServerNode nodeId) ∨ ∀ erServerNode ∈ world.serverNodes, erServerNode.id ≠ nodeId

/-- A read or the update of the change fails; the lock never does. -/
def ChangeFails : Prop := ∃ n ∈ [0,1,2,4], (world.env n).fails = true

/-- Every node answers and one of the updates succeeds. -/
structure AllKilled : Prop where
  some_ : tables.processorsOf sessionId ≠ []
  answers : ∀ row ∈ tables.processorsOf sessionId, world.fails (.killJobContainers row.serverNodeId) = false
  updates : ∃ row ∈ tables.processorsOf sessionId, world.fails (.update row.serverNodeId) = false

end

section
variable {world : World} {sessionId statusReason : String} {sessionMeta : ErSessionMeta} {s : State}

private theorem getServerNode_error {nodeId : Int} :
    (∃ failure, getServerNode world nodeId = .error failure) ↔ NodeFails world nodeId := by
  unfold getServerNode NodeFails
  split
  · rename_i fails
    exact ⟨fun _ => .inl fails,fun _ => ⟨_,rfl⟩⟩
  · rename_i read
    split
    · rename_i absent
      refine ⟨fun _ => .inr fun erServerNode member same => ?_,fun _ => ⟨_,rfl⟩⟩
      exact absurd (decide_eq_true same) (List.find?_eq_none.mp absent erServerNode member)
    · rename_i erServerNode found
      constructor
      · rintro ⟨failure,⟨⟩⟩
      rintro (fails | absent)
      · exact absurd fails read
      · have same := List.find?_some found
        exact absurd (of_decide_eq_true same) (absent _ (List.mem_of_find?_eq_some found))

private theorem getServerNode_id {nodeId : Int} {erServerNode : ErServerNode}
    (found : getServerNode world nodeId = .ok erServerNode) :
    erServerNode.id = nodeId := by
  unfold getServerNode at found
  split at found
  · cases found
  · split at found
    · cases found
    · rename_i given
      cases found
      have same := List.find?_some given
      exact of_decide_eq_true same

private theorem killNodes_error (sessionId : String) (sessionMeta : ErSessionMeta) (statusReason : String) (s : State)
    {nodeIds : List Int} (fails : ∃ nodeId ∈ nodeIds, NodeFails world nodeId) :
    ∃ failure after, killNodes world sessionId sessionMeta statusReason nodeIds s = (.error failure,after) := by
  induction nodeIds generalizing s with
  | nil =>
    obtain ⟨_,member,-⟩ := fails
    cases member
  | cons nodeId rest ih =>
    rw [killNodes]
    cases found : getServerNode world nodeId with
    | error failure => exact ⟨failure,s,rfl⟩
    | ok erServerNode =>
      apply ih
      obtain ⟨other,member,fails⟩ := fails
      rcases List.mem_cons.mp member with rfl | later
      · obtain ⟨failure,raised⟩ := getServerNode_error.mpr fails
        rw [found] at raised
        cases raised
      · exact ⟨other,later,fails⟩

def updates (world : World) (nodeId : Int) : Bool :=
  !world.fails (.killJobContainers nodeId) && !world.fails (.update nodeId)

private theorem killContainers_status (world : World) (sessionMeta : ErSessionMeta) (statusReason : String) {status : String}
    (stored : (s.tables.session sessionId).map SessionMain.status = some status)
    (erServerNode : ErServerNode) (nodeId : Int) :
    ((killContainers world sessionId sessionMeta statusReason erServerNode nodeId s).tables.session sessionId).map
      SessionMain.status = some (if updates world nodeId then target statusReason else status) := by
  unfold killContainers updates
  cases world.fails (.killJobContainers nodeId) with
  | true => exact stored
  | false =>
    cases world.fails (.update nodeId) with
    | true => exact stored
    | false =>
      obtain ⟨row,found,-⟩ := Option.map_eq_some_iff.mp stored
      simp only [Bool.false_eq_true,if_false,session_update,found,Option.map_some,if_pos (session_spec found).2]
      rfl

def answered (world : World) (sessionId : String) (sessionMeta : ErSessionMeta) (nodeId : Int) :
    Option KillContainersRequest :=
  if world.fails (.killJobContainers nodeId) then none
  else (getServerNode world nodeId).toOption.map fun erServerNode => ⟨erServerNode,sessionId,
    (sessionMeta.processors.filter fun processor => processor.serverNodeId = nodeId).map ErProcessor.id⟩

private theorem killContainers_killed {nodeId : Int} {erServerNode : ErServerNode}
    (found : getServerNode world nodeId = .ok erServerNode) :
    (killContainers world sessionId sessionMeta statusReason erServerNode nodeId s).killed =
      s.killed ++ (answered world sessionId sessionMeta nodeId).toList := by
  unfold killContainers answered
  rw [found]
  split
  · exact (List.append_nil _).symm
  · dsimp only
    split <;> rfl

private theorem killNodes_ok (sessionMeta : ErSessionMeta) (statusReason : String) {nodeIds : List Int} {status : String}
    (found : ∀ nodeId ∈ nodeIds, ¬ NodeFails world nodeId)
    (stored : (s.tables.session sessionId).map SessionMain.status = some status) :
    ∃ after, killNodes world sessionId sessionMeta statusReason nodeIds s = (.ok (),after) ∧
      (after.tables.session sessionId).map SessionMain.status =
        some (if nodeIds.any (updates world) then target statusReason else status) ∧
      after.killed = s.killed ++ nodeIds.filterMap (answered world sessionId sessionMeta) := by
  induction nodeIds generalizing s status with
  | nil => exact ⟨s,rfl,stored,(List.append_nil _).symm⟩
  | cons nodeId rest ih =>
    obtain ⟨here,others⟩ := List.forall_mem_cons.mp found
    rw [killNodes]
    cases node : getServerNode world nodeId with
    | error failure => exact absurd (getServerNode_error.mp ⟨failure,node⟩) here
    | ok erServerNode =>
      obtain ⟨after,done,last,killed⟩ := ih others
        (killContainers_status world sessionMeta statusReason stored erServerNode nodeId)
      refine ⟨after,done,?_,?_⟩
      · rw [last,List.any_cons]
        cases updates world nodeId <;> cases rest.any (updates world) <;> rfl
      · rw [killed,killContainers_killed node,List.append_assoc]
        refine congrArg (s.killed ++ ·) ?_
        cases first : answered world sessionId sessionMeta nodeId with
        | none => rw [List.filterMap_cons_none first]; rfl
        | some request => rw [List.filterMap_cons_some first]; rfl

end

section
variable {s : Tables} {env : ℕ → Env} {sessionId : String} {row : SessionMain} {n : ℕ} {op : Op} {info : MetaInfo}

theorem run_call (works : (env n).fails = false) (granted : s.refuses op = false) :
    (Cluster.call op).run Tables.serve env s n = some (s.write op,n + 1,.ok (s.answer (env n) op)) :=
  run_perform (by simp [Tables.serve,works,granted])

private theorem run_call_fails {failure : Cluster.Failure} (fails : (env n).fails = true)
    (given : Tables.failure op = some failure) :
    (Cluster.call op).run Tables.serve env s n = some (s,n + 1,.error failure) :=
  run_perform (by simp [Tables.serve,fails,given])

private theorem run_call_always (safe : Tables.failure op = none) (granted : s.refuses op = false) :
    (Cluster.call op).run Tables.serve env s n = some (s.write op,n + 1,.ok (s.answer (env n) op)) :=
  run_perform (by simp [Tables.serve,safe,granted])

private theorem run_getSession (found : s.session sessionId = some row)
    (works : (env 0).fails = false ∧ (env 1).fails = false ∧ (env 2).fails = false) :
    (Cluster.getSession sessionId true false false).run Tables.serve env s 0 =
      some (s,3,.ok (s.readSession sessionId true false false)) := by
  obtain ⟨main,resources,processors⟩ := works
  rw [Cluster.getSession,run_bind_ok (run_call main rfl)]
  rw [show s.answer (env 0) (.getSession sessionId) = some row from found,Tables.readSession,found]
  have read : (getProcessorBySession sessionId false).run Tables.serve env s 1 =
      some (s,3,.ok (s.readProcessors sessionId false)) := by
    rw [getProcessorBySession,run_bind_ok (run_call resources rfl),
      run_bind_ok (run_call processors rfl)]
    rfl
  exact run_bind_ok read

private theorem run_getSession_error (found : s.session sessionId = some row)
    (fails : (env 0).fails = true ∨ (env 1).fails = true ∨ (env 2).fails = true) :
    ∃ n failure,
      (Cluster.getSession sessionId true false false).run Tables.serve env s 0 = some (s,n,.error failure) := by
  cases main : (env 0).fails with
  | true => exact ⟨1,_,run_bind_error (run_call_fails main rfl)⟩
  | false =>
    have later : ∃ n failure, (getProcessorBySession sessionId false).run Tables.serve env s 1 =
        some (s,n,.error failure) := by
      cases resources : (env 1).fails with
      | true => exact ⟨2,_,run_bind_error (run_call_fails resources rfl)⟩
      | false =>
        have processors : (env 2).fails = true := by simpa [main,resources] using fails
        refine ⟨3,.sql,?_⟩
        rw [getProcessorBySession,run_bind_ok (run_call resources rfl)]
        exact run_bind_error (run_call_fails processors rfl)
    obtain ⟨n,failure,raised⟩ := later
    refine ⟨n,failure,?_⟩
    rw [Cluster.getSession,run_bind_ok (run_call main rfl)]
    rw [show s.answer (env 0) (.getSession sessionId) = some row from found]
    exact run_bind_error raised

variable {sessionMeta : ErSessionMeta} {context : Context}

private theorem run_tryFinally {α : Type} {p : Change α} {last : Change Unit} {t u : Tables} {m k : ℕ}
    {result : Except Cluster.Failure α} (ran : p.run Tables.serve env s n = some (t,m,result))
    (ends : last.run Tables.serve env t m = some (u,k,.ok ())) :
    (p.tryFinally last).run Tables.serve env s n = some (u,k,result) := by
  rw [Program.tryFinally,run_andThen,ran]
  change (last.andThen _).run Tables.serve env t m = _
  rw [run_andThen,ends]
  rfl

def waitingKill (context : Context) : SessionPatch where
  status := some "ERROR"
  statusReason := some (valueOf context.statusReason)

private theorem run_locked (works : (env 4).fails = false) (unbroken : context.isBreak = false)
    (still : context.openAsynPostHandle = false) :
    (AbstractStateMachine.locked sessionWaitingKillHandler context sessionMeta "WAITING_RESOURCE" "ERROR" false).run
      Tables.serve env s 4 = some (s.write (.updateSession sessionMeta.id (waitingKill context)),5,
        .ok (context,{ sessionMeta with beforeStatus := "WAITING_RESOURCE" })) := by
  simp only [AbstractStateMachine.locked,sessionWaitingKillHandler,prepareNothing,pure_bind,unbroken,
    AbstractStateMachine.transactionHandle,bind_assoc]
  rw [if_neg Bool.false_ne_true,run_bind_ok (run_call works rfl)]
  simp [AbstractStateMachine.submitPost,unbroken,still]
  rfl

private theorem run_locked_error (fails : (env 4).fails = true) (unbroken : context.isBreak = false) :
    (AbstractStateMachine.locked sessionWaitingKillHandler context sessionMeta "WAITING_RESOURCE" "ERROR" false).run
      Tables.serve env s 4 = some (s,5,.error .sql) := by
  simp only [AbstractStateMachine.locked,sessionWaitingKillHandler,prepareNothing,pure_bind,unbroken,
    AbstractStateMachine.transactionHandle,bind_assoc]
  rw [if_neg Bool.false_ne_true]
  exact run_bind_error (run_call_fails fails rfl)

private theorem run_change (info : MetaInfo) (context : Context) {t : Tables}
    {result : Except Cluster.Failure (Context × ErSessionMeta)}
    (found : s.session sessionMeta.id = some row)
    (works : (env 0).fails = false ∧ (env 1).fails = false ∧ (env 2).fails = false)
    (locked : (AbstractStateMachine.locked sessionWaitingKillHandler
      { context with beforeStatus := some "WAITING_RESOURCE" } sessionMeta "WAITING_RESOURCE" "ERROR" false).run
        Tables.serve env s 4 = some (t,5,result)) :
    ((sessionStateMachine info).changeStatus context sessionMeta "WAITING_RESOURCE" "ERROR" false).run Tables.serve env s
      0 = some (t,6,result) := by
  have line : ((sessionStateMachine info).buildStateChangeLine context sessionMeta "WAITING_RESOURCE" "ERROR").run
      Tables.serve env s 0 =
        some (s,3,.ok (({ context with beforeStatus := some "WAITING_RESOURCE" },sessionMeta),
          "WAITING_RESOURCE_ERROR")) :=
    run_bind_ok (run_getSession found works)
  rw [AbstractStateMachine.changeStatus,run_bind_ok line]
  have lock : (Cluster.call (.lock .session sessionMeta.id)).run Tables.serve env s 3 = some (s,4,.ok ()) :=
    run_call_always rfl rfl
  exact run_tryFinally ((run_bind_ok lock).trans locked) (run_call_always rfl rfl)

end

section
variable {world : World} {info : MetaInfo} {sessionId statusReason : String} {sessionMeta : ErSessionMeta} {s : State}
  {row : SessionMain}

private theorem changeToError_ok (info : MetaInfo) (statusReason : String)
    (found : s.tables.session sessionMeta.id = some row) (works : ¬ ChangeFails world) :
    ∃ after, changeToError world info sessionMeta statusReason s = (.ok (),after) ∧ after.killed = s.killed ∧
      (after.tables.session sessionMeta.id).map SessionMain.status = some "ERROR" := by
  have each (n : ℕ) (listed : n ∈ [0,1,2,4]) : (world.env n).fails = false :=
    Bool.eq_false_iff.mpr fun fails => works ⟨n,listed,fails⟩
  have changed := run_change info
    { beforeStatus := some sessionMeta.status, statusReason := some statusReason } found
    ⟨each 0 (by decide),each 1 (by decide),each 2 (by decide)⟩ (run_locked (each 4 (by decide)) rfl rfl)
  rw [changeToError,changed]
  refine ⟨_,rfl,rfl,?_⟩
  rw [session_update,found,Option.map_some,if_pos (session_spec found).2]
  rfl

private theorem changeToError_error (info : MetaInfo) (statusReason : String)
    (found : s.tables.session sessionMeta.id = some row) (fails : ChangeFails world) :
    ∃ failure after, changeToError world info sessionMeta statusReason s = (.error failure,after) := by
  by_cases works : (world.env 0).fails = false ∧ (world.env 1).fails = false ∧ (world.env 2).fails = false
  · obtain ⟨n,listed,fails⟩ := fails
    have last : (world.env 4).fails = true := by
      simp only [List.mem_cons,List.not_mem_nil,or_false] at listed
      rcases listed with rfl | rfl | rfl | rfl
      · exact absurd (works.1.symm.trans fails) Bool.false_ne_true
      · exact absurd (works.2.1.symm.trans fails) Bool.false_ne_true
      · exact absurd (works.2.2.symm.trans fails) Bool.false_ne_true
      · exact fails
    have changed := run_change info
      { beforeStatus := some sessionMeta.status, statusReason := some statusReason } found works
      (run_locked_error last rfl)
    rw [changeToError,changed]
    exact ⟨_,_,rfl⟩
  · have fails : (world.env 0).fails = true ∨ (world.env 1).fails = true ∨ (world.env 2).fails = true := by
      simp only [not_and_or,Bool.not_eq_false] at works
      exact works
    obtain ⟨n,failure,raised⟩ := run_getSession_error found fails
    have changed : ((sessionStateMachine info).changeStatus
        { beforeStatus := some sessionMeta.status, statusReason := some statusReason } sessionMeta "WAITING_RESOURCE"
          "ERROR" false).run Tables.serve world.env s.tables 0 = some (s.tables,n,.error failure) :=
      run_bind_error (run_bind_error raised)
    rw [changeToError,changed]
    exact ⟨_,_,rfl⟩

end

section
variable {world : World} {info : MetaInfo} {sessionId statusReason : String} {tables : Tables} {row : SessionMain}
  {order : Order (tables.processorsOf sessionId)}

def readMeta (sessionId : String) (tables : Tables) (row : SessionMain) : ErSessionMeta :=
  { row.toErSessionMeta with
    options := (tables.optionsOf sessionId).map fun option => (option.name,option.data)
    processors := (tables.processorsOf sessionId).map SessionProcessor.toErProcessor }

private theorem getSession_error : (∃ failure, getSession world sessionId tables = .error failure) ↔
    world.fails .listOptions ∨ ¬ ((tables.optionsOf sessionId).map SessionOption.name).Nodup ∨
      world.fails .listProcessors ∨ world.fails .getSessionMain := by
  unfold getSession
  constructor
  · rintro ⟨failure,raised⟩
    split at raised
    · exact .inl ‹_›
    · split at raised
      · exact .inr (.inl ‹_›)
      · split at raised
        · exact .inr (.inr (.inl ‹_›))
        · split at raised
          · exact .inr (.inr (.inr ‹_›))
          · cases raised
  · intro fails
    split
    · exact ⟨_,rfl⟩
    · split
      · exact ⟨_,rfl⟩
      · split
        · exact ⟨_,rfl⟩
        · split
          · exact ⟨_,rfl⟩
          · rename_i options names processors main
            exact absurd fails (not_or.mpr ⟨options,not_or.mpr ⟨names,not_or.mpr ⟨processors,main⟩⟩⟩)

private theorem getSession_ok {sessionMeta : Option ErSessionMeta} (found : tables.session sessionId = some row)
    (read : getSession world sessionId tables = .ok sessionMeta) :
    sessionMeta = some (readMeta sessionId tables row) := by
  unfold getSession at read
  split at read
  · cases read
  · split at read
    · cases read
    · split at read
      · cases read
      · split at read
        · cases read
        · rw [found] at read
          cases read
          rfl

private theorem killJob_cases (world : World) (info : MetaInfo) (statusReason : String)
    (order : Order (tables.processorsOf sessionId)) (found : tables.session sessionId = some row)
    (live : row.status ∈ nonTerminal) :
    ReadFails world sessionId tables ∧
        (∃ failure after, killJob world info sessionId statusReason tables order = (.error failure,after)) ∨
      ¬ ReadFails world sessionId tables ∧ killJob world info sessionId statusReason tables order =
        if row.status = "WAITING_RESOURCE" then
          changeToError world info (readMeta sessionId tables row) statusReason ⟨tables,[]⟩
        else killNodes world sessionId (readMeta sessionId tables row) statusReason order.nodeIds ⟨tables,[]⟩ := by
  unfold killJob ReadFails
  rw [found,← getSession_error]
  by_cases byId : world.fails .getById
  · rw [if_pos byId]
    exact .inl ⟨.inl byId,_,_,rfl⟩
  · rw [if_neg byId,if_neg (Option.some_ne_none row)]
    cases read : getSession world sessionId tables with
    | error failure => exact .inl ⟨.inr ⟨failure,rfl⟩,_,_,rfl⟩
    | ok sessionMeta =>
      refine .inr ⟨?_,?_⟩
      · rintro (fails | ⟨failure,⟨⟩⟩)
        exact byId fails
      · have over_ : row.status ∉ ["KILLED","ERROR","FINISHED"] ∧ row.status ≠ "" := by
          have each : ∀ status ∈ nonTerminal, status ∉ ["KILLED","ERROR","FINISHED"] ∧ status ≠ "" := by decide
          exact each row.status live
        rw [getSession_ok found read]
        change (if row.status ∈ ["KILLED","ERROR","FINISHED"] then _ else if row.status = "" then _ else _) = _
        rw [if_neg over_.1,if_neg over_.2]
        rfl

private theorem target_live (live : row.status ∈ nonTerminal) : row.status ≠ target statusReason := by
  have each : ∀ status ∈ nonTerminal, status ≠ "KILLED" ∧ status ≠ "ERROR" := by decide
  unfold target
  split
  · exact (each row.status live).1
  · exact (each row.status live).2

private theorem waiting_exact (found : tables.session sessionId = some row) :
    TakesEffect sessionId statusReason tables
        (changeToError world info (readMeta sessionId tables row) statusReason ⟨tables,[]⟩) ↔
      ChangeFails world ∨ statusReason ≠ "API" ∧ tables.processorsOf sessionId = [] := by
  have same : (readMeta sessionId tables row).id = sessionId := (session_spec found).2
  have here : (⟨tables,[]⟩ : State).tables.session (readMeta sessionId tables row).id = some row := by
    rw [same]
    exact found
  by_cases fails : ChangeFails world
  · obtain ⟨failure,after,raised⟩ := changeToError_error info statusReason here fails
    rw [raised]
    exact iff_of_true trivial (.inl fails)
  · obtain ⟨after,done,killed,status⟩ := changeToError_ok info statusReason here fails
    rw [same] at status
    rw [done,or_iff_right fails,TakesEffect,status,killed,Option.some_inj]
    refine and_congr ?_ ⟨fun answered => ?_,fun none row member => ?_⟩
    · unfold target
      split
      · rename_i api
        exact iff_of_false (by decide) fun other => other api
      · rename_i other
        exact iff_of_true rfl other
    · refine List.eq_nil_iff_forall_not_mem.mpr fun row member => ?_
      obtain ⟨_,-,sent⟩ := answered row member
      cases sent
    · rw [none] at member
      cases member

private theorem answered_some {nodeId : Int} {request : KillContainersRequest} :
    answered world sessionId (readMeta sessionId tables row) nodeId = some request ↔
      world.fails (.killJobContainers nodeId) = false ∧ ∃ erServerNode, getServerNode world nodeId = .ok erServerNode ∧
        request = requestFor sessionId tables erServerNode := by
  unfold answered
  cases world.fails (.killJobContainers nodeId) with
  | true => exact iff_of_false nofun fun both => Bool.noConfusion both.1
  | false =>
    cases found : getServerNode world nodeId with
    | error failure =>
      refine iff_of_false nofun ?_
      rintro ⟨-,erServerNode,⟨⟩,-⟩
    | ok erServerNode =>
      have same : (⟨erServerNode,sessionId,((readMeta sessionId tables row).processors.filter fun processor =>
          processor.serverNodeId = nodeId).map ErProcessor.id⟩ : KillContainersRequest) =
            requestFor sessionId tables erServerNode := by
        rw [requestFor,getServerNode_id found,readMeta,List.filter_map,List.map_map]
        rfl
      constructor
      · intro is
        refine ⟨rfl,erServerNode,rfl,?_⟩
        rw [← same]
        exact (Option.some.inj is).symm
      · rintro ⟨-,_,⟨⟩,rfl⟩
        exact congrArg some same

private theorem killNodes_exact (found : tables.session sessionId = some row) (live : row.status ∈ nonTerminal) :
    TakesEffect sessionId statusReason tables
        (killNodes world sessionId (readMeta sessionId tables row) statusReason order.nodeIds ⟨tables,[]⟩) ↔
      (∃ row ∈ tables.processorsOf sessionId, NodeFails world row.serverNodeId) ∨ AllKilled world sessionId tables := by
  have node (nodeId : Int) : nodeId ∈ order.nodeIds ↔
      ∃ row ∈ tables.processorsOf sessionId, row.serverNodeId = nodeId :=
    (order.mem nodeId).trans List.mem_map
  by_cases fails : ∃ row ∈ tables.processorsOf sessionId, NodeFails world row.serverNodeId
  · obtain ⟨other,member,failing⟩ := fails
    obtain ⟨failure,after,raised⟩ := killNodes_error sessionId (readMeta sessionId tables row)
      statusReason ⟨tables,[]⟩ ⟨_,(node _).mpr ⟨other,member,rfl⟩,failing⟩
    rw [raised]
    exact iff_of_true trivial (.inl ⟨other,member,failing⟩)
  · have finds : ∀ nodeId ∈ order.nodeIds, ¬ NodeFails world nodeId := by
      intro nodeId member failing
      obtain ⟨other,there,rfl⟩ := (node nodeId).mp member
      exact fails ⟨other,there,failing⟩
    obtain ⟨after,done,status,killed⟩ := killNodes_ok (readMeta sessionId tables row) statusReason
      (s := ⟨tables,[]⟩) finds (congrArg (Option.map SessionMain.status) found)
    rw [done,or_iff_right fails,TakesEffect,status,killed,Option.some_inj,List.nil_append]
    constructor
    · rintro ⟨ended,sent⟩
      cases some_ : order.nodeIds.any (updates world) with
      | false =>
        rw [some_] at ended
        exact absurd ended (target_live live)
      | true =>
        obtain ⟨nodeId,member,both⟩ := List.any_eq_true.mp some_
        obtain ⟨other,there,rfl⟩ := (node nodeId).mp member
        have updated := (Bool.and_eq_true_iff.mp both).2
        refine ⟨List.ne_nil_of_mem there,fun row member => ?_,other,there,by simpa using updated⟩
        obtain ⟨erServerNode,same,listed⟩ := sent row member
        obtain ⟨nodeId,-,request⟩ := List.mem_filterMap.mp listed
        obtain ⟨answers,node,given,is⟩ := answered_some.mp request
        have nodes : erServerNode = node := congrArg KillContainersRequest.erServerNode is
        rw [← same,nodes,getServerNode_id given]
        exact answers
    · rintro ⟨-,answers,other,there,updated⟩
      have some_ : order.nodeIds.any (updates world) = true := by
        refine List.any_eq_true.mpr ⟨_,(node _).mpr ⟨other,there,rfl⟩,?_⟩
        rw [updates,answers other there,updated]
        rfl
      rw [some_]
      refine ⟨rfl,fun row member => ?_⟩
      have listed := (node _).mpr ⟨row,member,rfl⟩
      cases given : getServerNode world row.serverNodeId with
      | error failure => exact absurd (getServerNode_error.mp ⟨failure,given⟩) (finds _ listed)
      | ok erServerNode =>
        refine ⟨erServerNode,getServerNode_id given,List.mem_filterMap.mpr ⟨_,listed,?_⟩⟩
        exact answered_some.mpr ⟨answers row member,erServerNode,given,rfl⟩

end

/-- A kill of a live session takes effect or raises exactly when it cannot read what it needs, or
when a waiting session without processors goes to `ERROR`, or when every node answers and one
update succeeds. -/
theorem killJob_exact (world : World) (info : MetaInfo) (sessionId statusReason : String) (tables : Tables)
    (order : Order (tables.processorsOf sessionId)) (row : SessionMain) (found : tables.session sessionId = some row)
    (live : row.status ∈ nonTerminal) :
    TakesEffect sessionId statusReason tables (killJob world info sessionId statusReason tables order) ↔
      ReadFails world sessionId tables ∨
        if row.status = "WAITING_RESOURCE" then
          ChangeFails world ∨ statusReason ≠ "API" ∧ tables.processorsOf sessionId = []
        else (∃ row ∈ tables.processorsOf sessionId, NodeFails world row.serverNodeId) ∨
          AllKilled world sessionId tables := by
  rcases killJob_cases world info statusReason order found live with
    ⟨fails,failure,after,raised⟩ | ⟨works,goes⟩
  · rw [raised]
    exact iff_of_true trivial (.inl fails)
  · rw [goes,or_iff_right works]
    split
    · exact waiting_exact found
    · exact killNodes_exact found live

/-- A new job with a processor on each of two nodes. -/
def exampleTables : Tables where
  sessions := [⟨"job","","NEW",none,none,"",some 2,some 0⟩]
  options := []
  processors := [1,2].map fun node => ⟨node,"job",node,"worker","NEW",none,"",none,none,[],none⟩
  nextId := 3
  processorResources := []
  nodeResources := []

def exampleOrder : Order (exampleTables.processorsOf "job") where
  nodeIds := [1,2]
  nodup := by decide
  mem _ := Iff.rfl

def exampleWorld (fails : Call → Bool) : World := ⟨[⟨1,"a",4671⟩,⟨2,"b",4671⟩],fails,fun _ => {}⟩

/-- The nodes cannot be reached. -/
def unreachable : Call → Bool
  | .killJobContainers _ => true
  | _ => false

theorem killJob_exact_both :
    TakesEffect "job" "API" exampleTables
        (killJob (exampleWorld fun _ => false) ⟨false,4⟩ "job" "API" exampleTables exampleOrder) ↔
      ReadFails (exampleWorld fun _ => false) "job" exampleTables ∨
        if "NEW" = "WAITING_RESOURCE" then
          ChangeFails (exampleWorld fun _ => false) ∨ "API" ≠ "API" ∧ exampleTables.processorsOf "job" = []
        else (∃ row ∈ exampleTables.processorsOf "job", NodeFails (exampleWorld fun _ => false) row.serverNodeId) ∨
          AllKilled (exampleWorld fun _ => false) "job" exampleTables :=
  killJob_exact _ _ _ _ _ _ ⟨"job","","NEW",none,none,"",some 2,some 0⟩ rfl (by decide)

/-- No node answers: the failures are swallowed and the job stays `NEW`. -/
theorem killJob_swallowed : "NEW" ∈ nonTerminal ∧
    (exampleTables.session "job").map SessionMain.status = some "NEW" ∧
    killJob (exampleWorld unreachable) ⟨false,4⟩ "job" "API" exampleTables exampleOrder = (.ok (),⟨exampleTables,[]⟩) ∧
    ¬ TakesEffect "job" "API" exampleTables
      (killJob (exampleWorld unreachable) ⟨false,4⟩ "job" "API" exampleTables exampleOrder) := by
  have ends : killJob (exampleWorld unreachable) ⟨false,4⟩ "job" "API" exampleTables exampleOrder =
      (.ok (),⟨exampleTables,[]⟩) := by rfl
  refine ⟨by decide,rfl,ends,?_⟩
  rw [ends]
  rintro ⟨status,-⟩
  exact absurd status (by decide)

end Eggroll.Cluster.JobKill
