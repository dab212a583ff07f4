import Eggroll.JobKill
import Eggroll.Library.Answers
import Eggroll.Library.ReentrantLock

/-! Who writes the status of a session: changes through the session machine, creation, stop and
kill requests, the dispatch thread, `killJob` and the session watcher. Every call is one step,
and every lock that the code takes is exclusive. -/
namespace Eggroll.Cluster.TerminalStatus
open Library
open Program hiding call

/-- The calls of the machines and of what is around them. -/
inductive Call
  | machine (op : Op)
  | lockSession (sessionId : String)
  | unlockSession (sessionId : String)
  | getSessionMainsByStatus (status : List String)
  | updateSessionMain (sessionMeta : ErSessionMeta)
  | getServerNode (nodeId : Int)
  | nodesOf (processors : List ErProcessor)
  | killJobContainers (erServerNode : ErServerNode) (sessionId : String) (containers : List Int)
  | resourceDispatch (sessionId : String)
  | overdue
  | contextLeft
deriving Repr, DecidableEq

abbrev Answer : Call → Type
  | .machine op => Ans op
  | .getSessionMainsByStatus _ => List ErSessionMeta
  | .getServerNode _ => Option ErServerNode
  | .nodesOf _ => List Int
  | .resourceDispatch _ => Option (List ErProcessor)
  | .overdue => Bool
  | .contextLeft => Context
  | _ => Unit

/-- What a call meets besides: the node of an id, the order of the nodes in a map, what there is
to dispatch, whether a deadline is over and what a failed change has left in its context. -/
structure World where
  env : Env := {}
  erServerNode : Option ErServerNode := none
  nodeIds : List Int := []
  dispatched : Option (List ErProcessor) := none
  overdue : Bool := false
  context : Context := {}
deriving Repr, DecidableEq

abbrev Acting (α : Type) := Program Call Answer Failure α

def ask (call : Call) : Acting (Answer call) := perform call

def acting {α : Type} (p : Change α) : Acting α := p.embed Call.machine fun _ => id

/-- A `try` whose `catch` only logs. -/
def attempt {α : Type} (p : Acting α) : Acting Unit := p.andThen fun _ => pure ()

section
variable (info : MetaInfo)

def change (context : Context) (sessionMeta : ErSessionMeta) (pre des : String) : Change Unit := do
  let _ ← (sessionStateMachine info).changeStatus context sessionMeta pre des false
  pure ()

/-- `SessionMainService.getSession(sessionId)`; a second option of one name is an
`IllegalStateException`. -/
def getSessionById (sessionId : String) : Change (Option ErSessionMeta) := do
  let optList ← call (.listOptions sessionId)
  if ¬ (optList.map SessionOption.name).Nodup then raise (.runtime "Duplicate key")
  else do
    let processorList ← call (.listProcessors sessionId)
    let session ← getSessionMain sessionId
    pure (session.map fun session => { session with
      options := optList.map fun option => (option.name,option.data)
      processors := processorList.map SessionProcessor.toErProcessor })

def killSessionById (context : Context) (sessionId : String) : Change Unit := do
  let sessionMeta ← getSessionById sessionId >>= notNull
  change info context sessionMeta "" "KILLED"

/-- The loop of `killAllSessions`, whose context all changes share. -/
def killEach : Context → List ErSessionMeta → Acting Unit
  | _, [] => pure ()
  | context, erSessionMeta :: rest =>
    (acting ((sessionStateMachine info).changeStatus context erSessionMeta "" "KILLED" false)).andThen fun result => do
      let context ← match result with
        | .ok changed => pure changed.1
        | .error _ => ask .contextLeft
      killEach context rest

def killAllSessions (context : Context) : Acting Unit := do
  let killList ← ask (.getSessionMainsByStatus ["NEW","ACTIVE"])
  killEach info context killList

def killContainers (sessionId statusReason : String) (sessionMeta : ErSessionMeta) (nodeId : Int)
    (erServerNode : ErServerNode) : Acting Unit := do
  let processors := sessionMeta.processors.filter fun processor => processor.serverNodeId = nodeId
  ask (.killJobContainers erServerNode sessionId (processors.map ErProcessor.id))
  ask (.machine (.updateSession sessionId {
    statusReason := some statusReason
    beforeStatus := some sessionMeta.status
    status := some (JobKill.target statusReason) }))

def killNodes (sessionId statusReason : String) (sessionMeta : ErSessionMeta) : List Int → Acting Unit
  | [] => pure ()
  | nodeId :: rest => do
    let erServerNode ← ask (.getServerNode nodeId)
    match erServerNode with
    | none => raise .nullPointer
    | some erServerNode => do
      attempt (killContainers sessionId statusReason sessionMeta nodeId erServerNode)
      killNodes sessionId statusReason sessionMeta rest

/-- The body of the locked section of `killJob`. -/
def killLocked (context : Context) (sessionId statusReason : String) : Acting Unit := do
  let found ← ask (.machine (.getSession sessionId))
  match found with
  | none => pure ()
  | some _ => do
    let sessionMeta ← acting (getSessionById sessionId >>= notNull)
    let context := { context with beforeStatus := some sessionMeta.status, statusReason := some statusReason }
    if sessionMeta.status ∈ ["KILLED","ERROR","FINISHED"] then pure ()
    else if sessionMeta.status = "" then raise .nullPointer
    else if sessionMeta.status = "WAITING_RESOURCE" then
      acting (change info context sessionMeta "WAITING_RESOURCE" "ERROR")
    else do
      let nodeIds ← ask (.nodesOf sessionMeta.processors)
      killNodes sessionId statusReason sessionMeta nodeIds

def killJob (context : Context) (sessionId statusReason : String) : Acting Unit := do
  ask (.lockSession sessionId)
  tryFinally (killLocked info context sessionId statusReason) (ask (.unlockSession sessionId))

def registerWithResource (erSessionMeta : ErSessionMeta) : Change Unit :=
  change info { processorType := some "DeepSpeed" } erSessionMeta "WAITING_RESOURCE" "NEW"

/-- What `dispatchThread` makes of the processors that it has dispatched. -/
def dispatchedSession (sessionId sessionName : String) (processors : List ErProcessor) : ErSessionMeta :=
  ⟨sessionId,sessionName,"NEW","","",some processors.length,none,processors,[]⟩

/-- One look of `dispatchThread` at an application. Nothing is dispatched for one that has
expired or that the resources are not enough for. -/
def dispatch (sessionId sessionName : String) : Acting Unit :=
  tryFinally
    (do
      ask (.lockSession sessionId)
      let sessionMain ← acting (getSessionMain sessionId >>= notNull)
      if sessionMain.status ≠ "WAITING_RESOURCE" then pure ()
      else do
        let dispatched ← ask (.resourceDispatch sessionId)
        match dispatched with
        | none => pure ()
        | some processors => acting (registerWithResource info (dispatchedSession sessionId sessionName processors)))
    (ask (.unlockSession sessionId))

def checkAndHandleDeepspeedOutTimeSession (session : ErSessionMeta) : Acting Unit := do
  let overdue ← ask .overdue
  if overdue then killJob info {} session.id "TIMEOUT" else pure ()

def checkAndHandleEggpairOutTimeSession (session : ErSessionMeta) : Acting Unit := do
  let overdue ← ask .overdue
  if overdue then acting (killSessionById info { statusReason := some "TIMEOUT" } session.id) else pure ()

def checkAndHandleEggpairActiveSession (session : ErSessionMeta) (sessionProcessors : List ErProcessor) :
    Acting Unit := do
  let timeout ← ask .overdue
  if timeout then acting (change info { statusReason := some "TIMEOUT" } session "" "ERROR")
  else if sessionProcessors.any fun p => p.status ∈ ["ERROR","KILLED","STOPPED"] then do
    let needKillSession ← ask .overdue
    if needKillSession then acting (change info {} session "" "ERROR") else pure ()
  else pure ()

/-- The `afterCall` of the update. -/
def changeProcessors (status : String) : List ErProcessor → Change Unit
  | [] => pure ()
  | processor :: rest => do
    let _ ← (processorStateMachine info.useResourceDispatch).changeStatus {} processor "" status false
    changeProcessors status rest

def checkAndHandleDeepspeedActiveSession (session : ErSessionMeta) (sessionProcessors : List ErProcessor) :
    Acting Unit :=
  if sessionProcessors.any fun p => p.status = "ERROR" then killJob info {} session.id "PROCESS_ERROR"
  else if sessionProcessors.all fun p => p.status = "FINISHED" then do
    ask (.updateSessionMain { session with status := "FINISHED" })
    acting (changeProcessors info "FINISHED" session.processors)
  else pure ()

/-- What the watcher does with a session of its list, which has the status of that moment. -/
def watch (session : ErSessionMeta) : Acting Unit := do
  let sessionInDb ← acting (getSession session.id true false false >>= notNull)
  if session.name = "DeepSpeed" then
    if session.status = "ACTIVE" then checkAndHandleDeepspeedActiveSession info session sessionInDb.processors
    else if session.status = "NEW" then checkAndHandleDeepspeedOutTimeSession info session
    else pure ()
  else if session.status = "ACTIVE" then checkAndHandleEggpairActiveSession info session sessionInDb.processors
  else if session.status = "NEW" then checkAndHandleEggpairOutTimeSession info session
  else pure ()

def watchEach : List ErSessionMeta → Acting Unit
  | [] => pure ()
  | session :: rest => do
    attempt (watch info session)
    watchEach rest

def sessionWatcherSchedule : Acting Unit := attempt do
  let sessions ← ask (.getSessionMainsByStatus ["ACTIVE","NEW"])
  watchEach info sessions

end

/-- Who writes. The changes include those of `submitResourceRequest`, to `WAITING_RESOURCE`, and of
`ProcessorStateRunningHandler`, from `NEW` to `ACTIVE`. -/
inductive Request
  | changeStatus (context : Context) (sessionMeta : ErSessionMeta) (preStateParam desStateParam : String) (callback : Bool)
  | getOrCreateSession (context : Context) (sessionMeta : ErSessionMeta)
  | stopSession (context : Context) (sessionMeta : ErSessionMeta)
  | killSession (context : Context) (sessionMeta : ErSessionMeta)
  | killSessionById (context : Context) (sessionId : String)
  | killAllSessions (context : Context)
  | killJob (context : Context) (sessionId statusReason : String)
  | dispatch (sessionId sessionName : String)
  | sessionWatcherSchedule
deriving Repr, DecidableEq

namespace Request

def program (info : MetaInfo) : Request → Acting Unit
  | changeStatus context sessionMeta pre des callback => do
    let _ ← acting ((sessionStateMachine info).changeStatus context sessionMeta pre des callback)
    pure ()
  | getOrCreateSession context sessionMeta => do
    let _ ← acting (Cluster.getOrCreateSession info context sessionMeta)
    pure ()
  | stopSession context sessionMeta | killSession context sessionMeta => acting (change info context sessionMeta "" "KILLED")
  | killSessionById context sessionId => acting (TerminalStatus.killSessionById info context sessionId)
  | killAllSessions context => TerminalStatus.killAllSessions info context
  | killJob context sessionId statusReason => TerminalStatus.killJob info context sessionId statusReason
  | dispatch sessionId sessionName => TerminalStatus.dispatch info sessionId sessionName
  | sessionWatcherSchedule => TerminalStatus.sessionWatcherSchedule info

end Request

/-- The tables, the locks of the machines and those of `ClusterResourceManager`. The looks are
history: the statuses that each request has read so far, of which sessions. -/
structure State where
  tables : Tables
  locks : LockCache → String → ReentrantLock ℕ
  sessionLocks : String → ReentrantLock ℕ
  looks : ℕ → List (String × Option String)

def stored (sessionId : String) (tables : Tables) : Option String := (tables.session sessionId).map SessionMain.status

def updateSessionMain (tables : Tables) (sessionMeta : ErSessionMeta) : Tables :=
  { tables with sessions := tables.sessions.map fun row =>
      if row.sessionId = sessionMeta.id then { row with
        name := sessionMeta.name
        status := sessionMeta.status
        tag := sessionMeta.tag
        activeProcCount := sessionMeta.activeProcCount }
      else row }

namespace State

def init (tables : Tables) : State := ⟨tables,fun _ _ => .new,fun _ => .new,fun _ => []⟩

def setLock (s : State) (cache : LockCache) (key : String) (lock : ReentrantLock ℕ) : State :=
  { s with locks := Function.update s.locks cache (Function.update (s.locks cache) key lock) }

def setSessionLock (s : State) (key : String) (lock : ReentrantLock ℕ) : State :=
  { s with sessionLocks := Function.update s.sessionLocks key lock }

def look (s : State) (id : ℕ) (seen : List (String × Option String)) : State :=
  { s with looks := Function.update s.looks id (s.looks id ++ seen) }

def note (s : State) (id : ℕ) : Op → State
  | .getSession sessionId => s.look id [(sessionId,stored sessionId s.tables)]
  | _ => s

def serveMachine (id : ℕ) : Service State Op Ans Failure Env := fun s op env =>
  match op with
  | .lock cache key => ((s.locks cache key).lock id).map fun lock => (s.setLock cache key lock,.ok ())
  | .unLock cache key =>
    match (s.locks cache key).unlock id with
    | some lock => some (s.setLock cache key lock,.ok ())
    | none => some (s,.error (.runtime ""))
  | op =>
    match s.tables.serve op env with
    | none => none
    | some (tables,.ok a) => some ({ s.note id op with tables := tables },.ok a)
    | some (tables,.error e) => some ({ s with tables := tables },.error e)

def sessionsByStatus (s : State) (status : List String) : List ErSessionMeta :=
  (s.tables.sessions.filter fun row => row.status ∈ status).map SessionMain.toErSessionMeta

def nodesOf (processors : List ErProcessor) (nodeIds : List Int) : List Int :=
  let distinct := (processors.map ErProcessor.serverNodeId).dedup
  if nodeIds.Perm distinct then nodeIds else distinct

def serve (id : ℕ) : Service State Call Answer Failure World := fun s call world =>
  match call with
  | .machine op => serveMachine id s op world.env
  | .lockSession key => ((s.sessionLocks key).lock id).map fun lock => (s.setSessionLock key lock,.ok ())
  | .unlockSession key =>
    match (s.sessionLocks key).unlock id with
    | some lock => some (s.setSessionLock key lock,.ok ())
    | none => some (s,.error (.runtime ""))
  | .getSessionMainsByStatus status =>
    if world.env.fails then some (s,.error .sql)
    else
      let sessions := s.sessionsByStatus status
      some (s.look id (sessions.map fun session => (session.id,some session.status)),.ok sessions)
  | .updateSessionMain sessionMeta =>
    if world.env.fails then some (s,.error .sql)
    else some ({ s with tables := TerminalStatus.updateSessionMain s.tables sessionMeta },.ok ())
  | .getServerNode nodeId =>
    if world.env.fails then some (s,.error .sql)
    else some (s,.ok (world.erServerNode.filter fun erServerNode => erServerNode.id = nodeId))
  | .nodesOf processors => some (s,.ok (nodesOf processors world.nodeIds))
  | .killJobContainers _ _ _ => if world.env.fails then some (s,.error (.runtime "")) else some (s,.ok ())
  | .resourceDispatch _ => if world.env.fails then some (s,.error .sql) else some (s,.ok world.dispatched)
  | .overdue => some (s,.ok world.overdue)
  | .contextLeft => some (s,.ok world.context)

end State

abbrev Run := Pool State Request Call Answer Failure Unit

/-- The requests are given by their numbers; each may come in at any time. -/
def system (info : MetaInfo) (requests : ℕ → Request) (serve : ℕ → Service State Call Answer Failure World) :
    System Run (Pool.Act Request World) :=
  (Pool.system (fun s => ∃ tables, s = .init tables) (Request.program info) serve).restrict fun _ act =>
    match act with
    | .invoke id request => request = requests id
    | .step _ _ => true

end Eggroll.Cluster.TerminalStatus
