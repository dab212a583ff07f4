import Eggroll.StateMachine

/-! The machine of sessions and `DefaultSessionManager`: creating a session, waiting for it,
stopping and killing it. -/
namespace Eggroll.Cluster
open Library
open Program hiding call

structure MetaInfo where
  useResourceDispatch : Bool
  processorsPerNode : Int
deriving Repr, DecidableEq

def withResources : List ErProcessor → Change (List ErProcessor)
  | [] => pure []
  | erProcessor :: rest => do
    let rows ← call (.listResources erProcessor.id)
    let rest ← withResources rest
    pure ({ erProcessor with resources := rows.map ProcessorResource.toErResource } :: rest)

def getProcessorBySession (sessionId : String) (withResource : Bool) : Change (List ErProcessor) := do
  call .listAllResources
  let rows ← call (.listProcessors sessionId)
  let processors := rows.map SessionProcessor.toErProcessor
  if withResource then withResources processors else pure processors

def putOption (options : Options) (row : SessionOption) : Options :=
  options.filter (fun option => option.1 ≠ row.name) ++ [(row.name,row.data)]

def getSession (sessionId : String) (withProcessor withOption withResource : Bool) :
    Change (Option ErSessionMeta) := do
  let sessionMain ← call (.getSession sessionId)
  match sessionMain with
  | none => pure none
  | some row => do
    let processors ← if withProcessor then getProcessorBySession sessionId withResource else pure []
    let options ← if withOption then call (.listOptions sessionId) else pure []
    pure (some { row.toErSessionMeta with
      processors := processors
      options := options.foldl putOption [] })

/-- Where the code goes on with an object that it has not tested for `null`. -/
def notNull {T : Type} : Option T → Change T
  | some t => pure t
  | none => raise .nullPointer

def getSessionMain (sessionId : String) : Change (Option ErSessionMeta) := do
  let sessionMain ← call (.getSession sessionId)
  pure (sessionMain.map SessionMain.toErSessionMeta)

/-- `prepare` of the handlers that read nothing. -/
def prepareNothing (context : Context) (data : ErSessionMeta) (_ _ : String) : Change (Context × ErSessionMeta) :=
  pure (context,data)

def updateStatus (context : Context) (erSessionMeta : ErSessionMeta) (des : String) : Change Unit :=
  call (.updateSession erSessionMeta.id {
    status := some des
    activeProcCount := erSessionMeta.activeProcCount
    beforeStatus := some (valueOf context.beforeStatus)
    statusReason := some (valueOf context.statusReason) })

def saveOptions (sessionId : String) : Options → Change Unit
  | [] => pure ()
  | (k,v) :: rest => do
    call (.saveOption ⟨sessionId,k,v⟩)
    saveOptions sessionId rest

section Handlers
variable (info : MetaInfo)

/-- Changes of each processor of a session, in the context of the session's own change. -/
def changeEach (des : String) : Context → List ErProcessor → Change (Context × List ErProcessor)
  | context, [] => pure (context,[])
  | context, processor :: rest => do
    let changed ← (processorStateMachine info.useResourceDispatch).changeStatus context processor "" des false
    let others ← changeEach des changed.1 rest
    pure (others.1,changed.2 :: others.2)

def doInserSession (context : Context) (erSessionMeta : ErSessionMeta) : Change (Context × ErSessionMeta) := do
  saveOptions erSessionMeta.id erSessionMeta.options
  let changed ← changeEach info "NEW" context erSessionMeta.processors
  pure (changed.1,{ erSessionMeta with processors := changed.2 })

def getServerNodes (context : Context) (data : ErSessionMeta) (_ _ : String) : Change (Context × ErSessionMeta) := do
  let serverNodes ← call .listHealthyNodes
  pure ({ context with serverNodes := serverNodes },data)

/-- `Integer.parseInt`. -/
def parseInt (s : String) : Option Int :=
  let digits (cs : List Char) : Option Int :=
    if cs ≠ [] ∧ cs.all Char.isDigit then some (cs.foldl (fun n c => n * 10 + (c.toNat - 48 : ℕ)) 0) else none
  let value := match s.toList with
    | '-' :: cs => (digits cs).map Neg.neg
    | '+' :: cs => digits cs
    | cs => digits cs
  value.filter fun n => -2147483648 ≤ n ∧ n < 2147483648

def processorsPerNode (options : Options) : Option Int :=
  match options.lookup "eggroll.session.processors.per.node" with
  | none => some info.processorsPerNode
  | some value => parseInt value

def eggsPerNode (options : Options) : Change Int :=
  match processorsPerNode info options with
  | some eggs => pure eggs
  | none => raise .numberFormat

def newProcessor (context : Context) (erSessionMeta : ErSessionMeta) (erServerNode : ErServerNode) : ErProcessor :=
  ⟨-1,erSessionMeta.id,erServerNode.id,context.processorType.getD "egg_pair","NEW","",
    some (erServerNode.host ++ ":0"),none,some (-1),erSessionMeta.options,"",[]⟩

/-- The processors that a creation makes, or those of the request for `DeepSpeed`. -/
def newProcessors (context : Context) (erSessionMeta : ErSessionMeta) (eggs : Int) : List ErProcessor :=
  if context.processorType ≠ some "DeepSpeed" then
    context.serverNodes.flatMap fun node => List.replicate eggs.toNat (newProcessor context erSessionMeta node)
  else erSessionMeta.processors.map fun processor => { processor with sessionId := erSessionMeta.id }

/-- The session as `SessionCreateHandler` and `SessionWaitNewHandler` make it. -/
def buildSession (context : Context) (erSessionMeta : ErSessionMeta) : Change ErSessionMeta :=
  if context.serverNodes = [] then raise (.runtime "no health server node")
  else do
    let eggs ← eggsPerNode info erSessionMeta.options
    pure { erSessionMeta with processors := newProcessors context erSessionMeta eggs }

def startContainers (context : Context) (data : ErSessionMeta) : Task :=
  if context.processorType = some "DeepSpeed" then .nothing
  else .startContainers context.serverNodes data

def newSessionMain (erSessionMeta : ErSessionMeta) (status : String) : SessionMain :=
  ⟨erSessionMeta.id,erSessionMeta.name,status,none,none,erSessionMeta.tag,
    some erSessionMeta.processors.length,some 0⟩

/-- The columns that `updateById` sets for a new row. -/
def SessionMain.columns (row : SessionMain) : SessionPatch where
  name := some row.name
  status := some row.status
  tag := some row.tag
  totalProcCount := row.totalProcCount
  activeProcCount := row.activeProcCount

def sessionCreateHandler : StateHandler ErSessionMeta where
  prepare := getServerNodes
  handle context data _ _ := do
    let erSessionMeta := { data with status := "NEW" }
    let sessionInDb ← getSession erSessionMeta.id true true false
    match sessionInDb with
    | some sessionInDb => pure (context,sessionInDb)
    | none => do
      let erSessionMeta ← buildSession info context erSessionMeta
      call (.saveSession (newSessionMain erSessionMeta "NEW"))
      let inserted ← doInserSession info context erSessionMeta
      pure ({ inserted.1 with openAsynPostHandle := true },inserted.2)
  asynPostHandle := startContainers

def sessionWaitNewHandler : StateHandler ErSessionMeta where
  prepare := getServerNodes
  handle context data _ _ := do
    let erSessionMeta ← buildSession info context { data with status := "NEW" }
    let row := newSessionMain erSessionMeta "NEW"
    call (.updateSession row.sessionId row.columns)
    let inserted ← doInserSession info context erSessionMeta
    pure ({ inserted.1 with openAsynPostHandle := true },inserted.2)
  asynPostHandle := startContainers

def sessionWaitResourceHandler : StateHandler ErSessionMeta where
  prepare := prepareNothing
  handle context data _ _ := do
    call (.saveSession (newSessionMain data "WAITING_RESOURCE"))
    pure (context,data)
  asynPostHandle _ _ := .nothing

def sessionActiveHandler : StateHandler ErSessionMeta where
  prepare context data _ _ := do
    let erSessionMeta ← getSession data.id false false false >>= notNull
    let context := if erSessionMeta.status ≠ "NEW" then { context with isBreak := true }
      else { context with openAsynPostHandle := true }
    pure (context,{ erSessionMeta with status := "ACTIVE" })
  handle context data _ _ := do
    call (.updateSession data.id { status := some data.status })
    let erSessionMeta ← getSession data.id false false false >>= notNull
    pure (context,erSessionMeta)
  asynPostHandle _ data := .wakeUpSession data.id

/-- `SessionKillHandler` and `SessionStopHandler`, which change the processors to
`processorStatus`. -/
def sessionEndHandler (processorStatus : String) : StateHandler ErSessionMeta where
  prepare context data pre _ := do
    let found ← getSession data.id true false false
    match found with
    | none => raise (.runtime "")
    | some erSessionMeta =>
      if pre ≠ "" ∧ pre = erSessionMeta.status then raise (.runtime "")
      else pure ({ context with openAsynPostHandle := true },
        { erSessionMeta with activeProcCount := data.activeProcCount <|> erSessionMeta.activeProcCount })
  handle context data _ des := do
    updateStatus context data des
    let changed ← changeEach info processorStatus context data.processors
    let erSessionMeta ← getSession data.id true false false >>= notNull
    pure (changed.1,erSessionMeta)
  asynPostHandle _ data := .stopContainers data

def sessionKillHandler : StateHandler ErSessionMeta := sessionEndHandler info "KILLED"

def sessionStopHandler : StateHandler ErSessionMeta := sessionEndHandler info "STOPPED"

def sessionWaitingKillHandler : StateHandler ErSessionMeta where
  prepare := prepareNothing
  handle context data pre des := do
    call (.updateSession data.id {
      status := some des
      statusReason := some (valueOf context.statusReason) })
    pure (context,{ data with beforeStatus := pre })
  asynPostHandle _ _ := .nothing

def sessionIgnoreHandler : StateHandler ErSessionMeta where
  prepare := prepareNothing
  handle context data _ _ := pure (context,data)
  asynPostHandle _ _ := .nothing

/-- What `buildStateChangeLine` does to the context. -/
def sessionLine (context : Context) (erSessionMeta : ErSessionMeta) (pre des : String)
    (found : Option ErSessionMeta) : (Context × ErSessionMeta) × String :=
  let preState := if pre = "" then (found.map ErSessionMeta.status).getD "" else pre
  (({ context with beforeStatus := some preState },erSessionMeta),preState ++ "_" ++ des)

def sessionHandler (repeatedCreate : StateHandler ErSessionMeta) (line : String) : StateHandler ErSessionMeta :=
  if line = "_WAITING_RESOURCE" then sessionWaitResourceHandler
  else if line = "WAITING_RESOURCE_NEW" then sessionWaitNewHandler info
  else if line = "_NEW" then sessionCreateHandler info
  else if line = "NEW_NEW" then repeatedCreate
  else if line = "NEW_ACTIVE" then sessionActiveHandler
  else if line ∈ ["NEW_KILLED","NEW_ERROR","ACTIVE_KILLED","ACTIVE_ERROR"] then sessionKillHandler info
  else if line = "ACTIVE_CLOSED" then sessionStopHandler info
  else if line ∈ ["WAITING_RESOURCE_KILLED","WAITING_RESOURCE_ERROR","WAITING_RESOURCE_CLOSED"] then
    sessionWaitingKillHandler
  else sessionIgnoreHandler

def sessionMachineWith (repeatedCreate : StateHandler ErSessionMeta) : AbstractStateMachine ErSessionMeta where
  cache := .session
  buildStateChangeLine context erSessionMeta pre des := do
    let found ← getSession erSessionMeta.id true false false
    pure (sessionLine context erSessionMeta pre des found)
  handler line := some (sessionHandler info repeatedCreate line)
  getLockKey _ erSessionMeta := erSessionMeta.id

/-- A change to `KILLED` never comes to the line `NEW_NEW`. -/
def killSession (context : Context) (sessionMeta : ErSessionMeta) : Change (Context × ErSessionMeta) :=
  (sessionMachineWith info sessionIgnoreHandler).changeStatus context sessionMeta "" "KILLED" false

def killUnstarted (context : Context) (data : ErSessionMeta) : Change Unit := do
  let erSessionMeta ← getSessionMain data.id >>= notNull
  if erSessionMeta.status ≠ "ACTIVE" then do
    let _ ← killSession info { context with statusReason := some "PROCESS_ERROR" } data
    let count (n : Option Int) : String := (n.map toString).getD "null"
    raise (.sessionException ("unable to start all processors for session id: . " ++ data.id ++
      "total processors:" ++ count erSessionMeta.totalProcCount ++ " \nstarted count:" ++
      count erSessionMeta.activeProcCount))

/-- `SessionStatus.valueOf(status).isOver`. -/
def isOverState (status : String) : Change Bool :=
  if status ∈ ["NEW_TIMEOUT","CLOSED","KILLED","ERROR","ALLOCATE_RESOURCE_FAILED","FINISHED"] then pure true
  else if status ∈ ["WAITING_RESOURCE","PREPARE","NEW","ACTIVE"] then pure false
  else if status = "" then raise .nullPointer
  else raise .illegalArgument

def starting (cur : ErSessionMeta) : Bool :=
  match cur.activeProcCount, cur.totalProcCount with
  | some active, some total => active < total
  | _, _ => true

/-- The loop of `checkSessionRpcReady`, which the deadline ends after so many looks. -/
def checkSessionRpcReady (sessionId : String) : ℕ → Change Bool
  | 0 => pure false
  | looks + 1 => do
    let cur ← getSession sessionId false false false
    match cur with
    | none => pure false
    | some cur => do
      let over_ ← isOverState cur.status
      if over_ || cur.status == "ACTIVE" then pure true
      else if cur.status == "NEW" && starting cur then checkSessionRpcReady sessionId looks
      else pure true

def sessionRepeatedCreateHandler : StateHandler ErSessionMeta where
  prepare := prepareNothing
  handle context data _ _ := do
    let looks ← call .polls
    let ready ← checkSessionRpcReady data.id looks
    if !ready then killUnstarted info context data
    let sessionInDb ← getSession data.id true true true >>= notNull
    pure (context,sessionInDb)
  asynPostHandle _ _ := .nothing

def sessionStateMachine : AbstractStateMachine ErSessionMeta :=
  sessionMachineWith info (sessionRepeatedCreateHandler info)

/-- What ends the loop of `getSessionBusyWaiting`. -/
def settled : Option ErSessionMeta → Bool
  | some cur => cur.status != "NEW" && !isBlank (some cur.id)
  | none => false

/-- The loop of `getSessionBusyWaiting`, which the deadline ends after so many looks more. -/
def busyWait (sessionId : String) : ℕ → Change (Option ErSessionMeta)
  | 0 => getSession sessionId false false false
  | looks + 1 => do
    let cur ← getSession sessionId false false false
    if settled cur then pure cur else busyWait sessionId looks

def getSessionBusyWaiting (session : ErSessionMeta) : Change (Option ErSessionMeta) := do
  let looks ← call .polls
  let cur ← busyWait session.id looks
  match cur with
  | some _ => getSession session.id true true false
  | none => pure none

def getOrCreateSession (context : Context) (sessionMeta : ErSessionMeta) : Change (Option ErSessionMeta) := do
  let sessionInDb ← getSession sessionMeta.id true true false
  match sessionInDb with
  | some sessionInDb =>
    if sessionInDb.status = "" then raise .nullPointer
    else if sessionInDb.status = "ACTIVE" then pure (some sessionInDb)
    else getSessionBusyWaiting sessionMeta
  | none => do
    let changed ← (sessionStateMachine info).changeStatus context sessionMeta "" "NEW" false
    if changed.2.status ≠ "NEW" then pure (some changed.2)
    else do
      let actived ← call .await
      if !actived then killUnstarted info changed.1 sessionMeta
      getSession sessionMeta.id true true true

end Handlers

end Eggroll.Cluster
