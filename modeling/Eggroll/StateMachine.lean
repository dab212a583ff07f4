import Eggroll.Cluster

/-! The state machines of the cluster manager: `AbstractStateMachine.changeStatus` and the
handlers of processor resources, processors and sessions, call by call. The context of a
change and the objects it works on are passed along as values. -/
namespace Eggroll.Cluster
open Library
open Program hiding call

abbrev Change (α : Type) := Program Op Ans Failure α

def call (op : Op) : Change (Ans op) := perform op

/-- The entries of a `Context` that the machines use. -/
structure Context where
  isBreak : Bool := false
  openAsynPostHandle : Bool := false
  processorInDb : Option ErProcessor := none
  beforeStatus : Option String := none
  statusReason : Option String := none
  serverNodes : List ErServerNode := []
  processorType : Option String := none
deriving Repr, DecidableEq

/-- `String.valueOf` of an entry. -/
def valueOf (entry : Option String) : String := entry.getD "null"

structure StateHandler (T : Type) where
  prepare : Context → T → String → String → Change (Context × T)
  handle : Context → T → String → String → Change (Context × T)
  asynPostHandle : Context → T → Task

structure AbstractStateMachine (T : Type) where
  cache : LockCache
  buildStateChangeLine : Context → T → String → String → Change ((Context × T) × String)
  handler : String → Option (StateHandler T)
  getLockKey : Context → T → String

namespace AbstractStateMachine
variable {T : Type}

/-- What follows the handler: nothing once it has broken off, else its task for the pool. -/
def submitPost (handler : StateHandler T) (result : Context × T) : Change (Context × T) :=
  if !result.1.isBreak && result.1.openAsynPostHandle then do
    call (.submit (handler.asynPostHandle result.1 result.2))
    pure result
  else pure result

def transactionHandle (handler : StateHandler T) (context : Context) (t : T) (pre des : String)
    (callback : Bool) : Change (Context × T) := do
  let result ← handler.handle context t pre des
  if callback then call .callback
  pure result

def locked (handler : StateHandler T) (context : Context) (t : T) (pre des : String) (callback : Bool) :
    Change (Context × T) := do
  let prepared ← handler.prepare context t pre des
  if prepared.1.isBreak then pure prepared
  else do
    let result ← transactionHandle handler prepared.1 prepared.2 pre des callback
    submitPost handler result

/-- `transactionHandle` is private, so that its `@Transactional` is never intercepted and no
call is rolled back. -/
def changeStatus (machine : AbstractStateMachine T) (context : Context) (t : T) (pre des : String)
    (callback : Bool) : Change (Context × T) := do
  let built ← machine.buildStateChangeLine context t pre des
  match machine.handler built.2 with
  | none => raise (.runtime ("no status handler found for " ++ built.2))
  | some handler =>
    let lockKey := machine.getLockKey built.1.1 built.1.2
    tryFinally
      (do
        call (.lock machine.cache lockKey)
        locked handler built.1.1 built.1.2 pre des callback)
      (call (.unLock machine.cache lockKey))

end AbstractStateMachine

/-- `split(",")`, which drops empty strings at the end. -/
def splitExtention (extention : String) : List String :=
  ((extention.splitOn ",").reverse.dropWhile (· == "")).reverse

def isBlank (column : Option String) : Bool := (column.getD "").toList.all Char.isWhitespace

/-- A blank column stays as it is when there is nothing to add: `updateById` writes no null. -/
def addExtention (extention added : Option String) : Option String :=
  if isBlank extention then added <|> extention
  else
    let extensionList := splitExtention (extention.getD "")
    some (",".intercalate (if added.any (extensionList.contains ·) then extensionList
      else extensionList ++ [added.getD "null"]))

def removeExtention (extention removed : Option String) : Option String :=
  if isBlank extention then extention
  else some (",".intercalate ((splitExtention (extention.getD "")).filter fun other => some other ≠ removed))

namespace NodeResource

def preAllocate (nodeResource : NodeResource) (resource : ErResource) : NodeResource :=
  { nodeResource with
    preAllocated := min (nodeResource.preAllocated + resource.allocated) nodeResource.total
    extention := addExtention nodeResource.extention resource.extention }

def preAllocateFail (nodeResource : NodeResource) (resource : ErResource) : NodeResource :=
  { nodeResource with
    preAllocated := max (nodeResource.preAllocated - resource.allocated) 0
    extention := removeExtention nodeResource.extention resource.extention }

def allocate (nodeResource : NodeResource) (resource : ErResource) : NodeResource :=
  { nodeResource with
    preAllocated := max (nodeResource.preAllocated - resource.allocated) 0
    allocated := min (nodeResource.allocated + resource.allocated) nodeResource.total
    used := min (nodeResource.used + resource.allocated) nodeResource.total }

def giveBack (nodeResource : NodeResource) (resource : ErResource) : NodeResource :=
  { nodeResource with
    extention := removeExtention nodeResource.extention resource.extention
    allocated := max (nodeResource.allocated - resource.allocated) 0
    used := max (nodeResource.used - resource.allocated) 0 }

end NodeResource

/-- `resourceMap.get` of a type, or else the row of the node. -/
def getNodeResource (resourceMap : List NodeResource) (serverNodeId : Int) (resourceType : String) :
    Change NodeResource :=
  match resourceMap.find? fun row => row.resourceType = resourceType with
  | some row => pure row
  | none => do
    let found ← call (.getNodeResource serverNodeId resourceType)
    match found with
    | some row => pure row
    | none => raise (.runtime (s!"nodeResource serverNodeId = {serverNodeId}, resourceType = " ++
        resourceType ++ " missing"))

def updateAll : List NodeResource → Change Unit
  | [] => pure ()
  | row :: rest => do
    call (.updateNodeResource row)
    updateAll rest

/-- The loop that the four methods of `NodeResourceService` share. The rows that it has
changed so far are all written again for each resource. -/
def eachResource (change : NodeResource → ErResource → NodeResource) (serverNodeId : Int) :
    List NodeResource → List ErResource → Change Unit
  | _, [] => pure ()
  | resourceMap, resource :: rest => do
    let nodeResource ← getNodeResource resourceMap serverNodeId resource.resourceType
    let resourceMap := change nodeResource resource ::
      resourceMap.filter fun row => row.resourceType ≠ resource.resourceType
    updateAll resourceMap
    eachResource change serverNodeId resourceMap rest

def saveResources (erProcessor : ErProcessor) : List ErResource → Change Unit
  | [] => pure ()
  | resource :: rest => do
    call (.saveResource ⟨erProcessor.id,erProcessor.sessionId,intValue erProcessor.serverNodeId,
      resource.resourceType,resource.allocated,resource.extention,resource.status⟩)
    saveResources erProcessor rest

def updateResources (desState : String) : List ErResource → Change Unit
  | [] => pure ()
  | resource :: rest => do
    call (.updateResource resource.key desState)
    updateResources desState rest

def underNodeLock (erProcessor : ErProcessor) (inside : Change Unit) : Change Unit := do
  call (.lock .nodeResource (toString erProcessor.serverNodeId))
  tryFinally inside (call (.unLock .nodeResource (toString erProcessor.serverNodeId)))

def changeResource (change : NodeResource → ErResource → NodeResource) (erProcessor : ErProcessor)
    (rows : Change Unit) : Change Unit :=
  underNodeLock erProcessor do
    eachResource change erProcessor.serverNodeId [] erProcessor.resources
    rows

def preAllocateResource (erProcessor : ErProcessor) : Change Unit :=
  changeResource .preAllocate erProcessor (saveResources erProcessor erProcessor.resources)

def preAllocateFailedResource (erProcessor : ErProcessor) : Change Unit :=
  changeResource .preAllocateFail erProcessor (updateResources "return" erProcessor.resources)

def allocatedResource (erProcessor : ErProcessor) : Change Unit :=
  changeResource .allocate erProcessor (updateResources "allocated" erProcessor.resources)

def returnResource (erProcessor : ErProcessor) : Change Unit :=
  changeResource .giveBack erProcessor (updateResources "return" erProcessor.resources)

def loadResources (data : ErProcessor) : Change ErProcessor :=
  if data.resources = [] then do
    let rows ← call (.listResources data.id)
    pure { data with resources := rows.map ProcessorResource.toErResource }
  else pure data

/-- The `switch` of the handler. -/
def onStateLine (data : ErProcessor) : String → Change Unit
  | "init_pre_allocated" => preAllocateResource data
  | "pre_allocated_allocated" => allocatedResource data
  | "pre_allocated_allocate_failed" => preAllocateFailedResource data
  | "allocated_return" => returnResource data
  | _ => pure ()

def resourceStateHandler : StateHandler ErProcessor where
  prepare context data _ _ := pure (context,data)
  handle context data pre des := do
    let data ← loadResources data
    onStateLine data (pre ++ "_" ++ des)
    pure ({ context with openAsynPostHandle := true },data)
  asynPostHandle _ data := .countNodeResource data.serverNodeId

def resourceLines : List String :=
  ["init_pre_allocated","pre_allocated_allocated","pre_allocated_allocate_failed","allocated_return"]

def resourceStateMechine : AbstractStateMachine ErProcessor where
  cache := .resource
  buildStateChangeLine context erProcessor pre des := pure ((context,erProcessor),pre ++ "_" ++ des)
  handler line := if line ∈ resourceLines then some resourceStateHandler else none
  getLockKey _ processor := toString processor.serverNodeId

section Processor
variable (useResourceDispatch : Bool)

def checkNeedChangeResource (erProcessor : ErProcessor) : Bool :=
  useResourceDispatch || erProcessor.processorType == "DeepSpeed"

def changeResourceIfNeeded (context : Context) (data : ErProcessor) (pre des : String) :
    Change (Context × ErProcessor) :=
  if checkNeedChangeResource useResourceDispatch data then
    resourceStateMechine.changeStatus context data pre des false
  else pure (context,data)

def newState (data : ErProcessor) (des : String) : ProcessorPatch :=
  ⟨des,data.commandEndpoint,data.pid.filter (0 < ·),data.transferEndpoint,some data.beforeStatus⟩

def updateState (data : ErProcessor) (des : String) : Change Unit :=
  call (.updateProcessor data.id (newState data des))

/-- `prepare` of the handlers that have none of their own. -/
def processorPrepare (context : Context) (data : ErProcessor) (_ _ : String) :
    Change (Context × ErProcessor) :=
  match context.processorInDb with
  | some processorInDb => pure (context,processorInDb)
  | none => do
    let found ← call (.getProcessor data.id)
    match found with
    | some row => pure (context,row.toErProcessor)
    | none => pure (context,data)

def processorCreateHandler : StateHandler ErProcessor where
  prepare context data _ _ := pure (context,data)
  handle context data _ _ := do
    let processorId ← call (.saveProcessor data.toRow)
    changeResourceIfNeeded useResourceDispatch context { data with id := processorId } "init" "pre_allocated"
  asynPostHandle _ _ := .nothing

def readBack (context : Context) (data : ErProcessor) (missing : Failure) : Change (Context × ErProcessor) := do
  let found ← call (.getProcessor data.id)
  match found with
  | some row => pure (context,row.toErProcessor)
  | none => raise missing

def processorStateRunningHandler : StateHandler ErProcessor where
  prepare context data _ _ := pure ({ context with openAsynPostHandle := true },data)
  handle context data _ des := do
    updateState data des
    let changed ← changeResourceIfNeeded useResourceDispatch context data "pre_allocated" "allocated"
    readBack changed.1 changed.2 .nullPointer
  asynPostHandle context data := .updateActiveCount context.processorInDb data.sessionId

def processorStatusRunningStopHandler : StateHandler ErProcessor where
  prepare context data _ _ := pure (context,data)
  handle context data _ des := do
    updateState data des
    let changed ← changeResourceIfNeeded useResourceDispatch context data "allocated" "return"
    readBack changed.1 changed.2 (.runtime "")
  asynPostHandle _ _ := .nothing

def processorStateNewStopHandler : StateHandler ErProcessor where
  prepare := processorPrepare
  handle context data _ des := do
    updateState data des
    changeResourceIfNeeded useResourceDispatch context data "pre_allocated" "allocate_failed"
  asynPostHandle _ _ := .nothing

def processorStateInvalidHandler : StateHandler ErProcessor where
  prepare := processorPrepare
  handle context data _ _ := do
    call (.addResidualHeartbeat data)
    pure (context,data)
  asynPostHandle _ _ := .nothing

def processorStateIgnoreHandler : StateHandler ErProcessor where
  prepare := processorPrepare
  handle context data _ _ := pure (context,data)
  asynPostHandle _ _ := .nothing

def processorHandler (line : String) : StateHandler ErProcessor :=
  if line = "_NEW" then processorCreateHandler useResourceDispatch
  else if line = "NEW_RUNNING" then processorStateRunningHandler useResourceDispatch
  else if line ∈ ["RUNNING_FINISHED","RUNNING_STOPPED","RUNNING_KILLED","RUNNING_ERROR"] then
    processorStatusRunningStopHandler useResourceDispatch
  else if line ∈ ["NEW_FINISHED","NEW_STOPPED","NEW_KILLED","NEW_ERROR"] then
    processorStateNewStopHandler useResourceDispatch
  else if line ∈ ["KILLED_RUNNING","STOPPED_RUNNING","ERROR_RUNNING","_RUNNING"] then
    processorStateInvalidHandler
  else processorStateIgnoreHandler

/-- What `buildStateChangeLine` does to the context and the processor. -/
def processorLine (context : Context) (erProcessor : ErProcessor) (pre des : String)
    (found : Option SessionProcessor) : (Context × ErProcessor) × String :=
  let preState := if pre = "" then (found.map SessionProcessor.status).getD "" else pre
  (({ context with
      processorInDb := (found.map SessionProcessor.toErProcessor) <|> context.processorInDb
      beforeStatus := some preState },
    { erProcessor with
      processorType := (found.map SessionProcessor.processorType).getD erProcessor.processorType
      beforeStatus := preState }),
    preState ++ "_" ++ des)

def processorStateMachine : AbstractStateMachine ErProcessor where
  cache := .processor
  buildStateChangeLine context erProcessor pre des := do
    let found ← call (.getProcessor erProcessor.id)
    pure (processorLine context erProcessor pre des found)
  handler line := some (processorHandler useResourceDispatch line)
  getLockKey context erProcessor :=
    match context.processorInDb with
    | some erInDb => "PK_" ++ erInDb.sessionId
    | none => "PK_" ++ toString erProcessor.id

end Processor

end Eggroll.Cluster
