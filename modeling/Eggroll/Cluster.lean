import Eggroll.Library.Program

/-! The cluster manager's tables of sessions, processors and resources, the calls that the
state machines make on them, and the locks and pools of these machines. A status is the
string of its column, and an empty one is also `null`. -/
namespace Eggroll.Cluster
open Library

abbrev Options := List (String × String)

structure ErServerNode where
  id : Int
  host : String
  port : Int
deriving Repr, DecidableEq

structure ErResource where
  resourceType : String
  processorId : Option Int
  sessionId : Option String
  serverNodeId : Int
  allocated : Int
  extention : Option String
  status : String
deriving Repr, DecidableEq

structure ErProcessor where
  id : Int
  sessionId : String
  serverNodeId : Int
  processorType : String
  status : String
  beforeStatus : String
  commandEndpoint : Option String
  transferEndpoint : Option String
  pid : Option Int
  options : Options
  tag : String
  resources : List ErResource
deriving Repr, DecidableEq

structure ErSessionMeta where
  id : String
  name : String
  status : String
  beforeStatus : String
  tag : String
  totalProcCount : Option Int
  activeProcCount : Option Int
  processors : List ErProcessor
  options : Options
deriving Repr, DecidableEq

structure SessionMain where
  sessionId : String
  name : String
  status : String
  beforeStatus : Option String
  statusReason : Option String
  tag : String
  totalProcCount : Option Int
  activeProcCount : Option Int
deriving Repr, DecidableEq

structure SessionOption where
  sessionId : String
  name : String
  data : String
deriving Repr, DecidableEq

structure SessionProcessor where
  processorId : Int
  sessionId : String
  serverNodeId : Int
  processorType : String
  status : String
  beforeStatus : Option String
  tag : String
  commandEndpoint : Option String
  transferEndpoint : Option String
  processorOption : Options
  pid : Option Int
deriving Repr, DecidableEq

structure ProcessorResource where
  processorId : Int
  sessionId : String
  serverNodeId : Int
  resourceType : String
  allocated : Int
  extention : Option String
  status : String
deriving Repr, DecidableEq

structure NodeResource where
  serverNodeId : Int
  resourceType : String
  total : Int
  used : Int
  preAllocated : Int
  allocated : Int
  extention : Option String
deriving Repr, DecidableEq

/-- `nextId` is the next id that `session_processor` gives. -/
structure Tables where
  sessions : List SessionMain
  options : List SessionOption
  processors : List SessionProcessor
  nextId : ℕ
  processorResources : List ProcessorResource
  nodeResources : List NodeResource
deriving Repr, DecidableEq

/-- `intValue` of a `Long`. -/
def intValue (x : Int) : Int := (x + 2147483648) % 4294967296 - 2147483648

def SessionMain.toErSessionMeta (row : SessionMain) : ErSessionMeta :=
  ⟨row.sessionId,row.name,row.status,"",row.tag,row.totalProcCount,row.activeProcCount,[],[]⟩

def nonEmpty (column : Option String) : Option String := column.filter (· ≠ "")

def SessionProcessor.toErProcessor (row : SessionProcessor) : ErProcessor :=
  ⟨row.processorId,row.sessionId,row.serverNodeId,row.processorType,row.status,"",
    nonEmpty row.commandEndpoint,nonEmpty row.transferEndpoint,row.pid,row.processorOption,row.tag,[]⟩

def ErProcessor.toRow (erProcessor : ErProcessor) : SessionProcessor :=
  ⟨erProcessor.id,erProcessor.sessionId,intValue erProcessor.serverNodeId,erProcessor.processorType,
    erProcessor.status,none,erProcessor.tag,erProcessor.commandEndpoint,erProcessor.transferEndpoint,
    erProcessor.options,erProcessor.pid⟩

def ProcessorResource.toErResource (row : ProcessorResource) : ErResource :=
  ⟨row.resourceType,some row.processorId,some row.sessionId,row.serverNodeId,row.allocated,row.extention,
    row.status⟩

/-- The columns that an update of `session_main` sets. -/
structure SessionPatch where
  status : Option String := none
  beforeStatus : Option String := none
  statusReason : Option String := none
  name : Option String := none
  tag : Option String := none
  totalProcCount : Option Int := none
  activeProcCount : Option Int := none
deriving Repr, DecidableEq

def SessionPatch.apply (patch : SessionPatch) (row : SessionMain) : SessionMain where
  sessionId := row.sessionId
  name := patch.name.getD row.name
  status := patch.status.getD row.status
  beforeStatus := patch.beforeStatus <|> row.beforeStatus
  statusReason := patch.statusReason <|> row.statusReason
  tag := patch.tag.getD row.tag
  totalProcCount := patch.totalProcCount <|> row.totalProcCount
  activeProcCount := patch.activeProcCount <|> row.activeProcCount

/-- The columns that an update of `session_processor` sets. -/
structure ProcessorPatch where
  status : String
  commandEndpoint : Option String
  pid : Option Int
  transferEndpoint : Option String
  beforeStatus : Option String
deriving Repr, DecidableEq

def ProcessorPatch.apply (patch : ProcessorPatch) (row : SessionProcessor) : SessionProcessor :=
  { row with
    status := patch.status
    commandEndpoint := patch.commandEndpoint <|> row.commandEndpoint
    pid := patch.pid <|> row.pid
    transferEndpoint := patch.transferEndpoint <|> row.transferEndpoint
    beforeStatus := patch.beforeStatus <|> row.beforeStatus }

/-- Which rows of `processor_resource` an update meets. -/
structure ResourceKey where
  processorId : Option Int
  sessionId : Option String
  serverNodeId : Int
  resourceType : String
deriving Repr, DecidableEq

def ErResource.key (erResource : ErResource) : ResourceKey :=
  ⟨erResource.processorId,erResource.sessionId,erResource.serverNodeId,erResource.resourceType⟩

def ResourceKey.meets (key : ResourceKey) (row : ProcessorResource) : Bool :=
  key.processorId = some row.processorId ∧ key.sessionId = some row.sessionId ∧
    key.serverNodeId = row.serverNodeId ∧ key.resourceType = row.resourceType

/-- The lock caches: one of each state machine and `nodeResourceLockCache`. -/
inductive LockCache | session | processor | resource | nodeResource
deriving Repr, DecidableEq

/-- What a machine submits to its pool. -/
inductive Task
  | nothing
  | startContainers (serverNodes : List ErServerNode) (session : ErSessionMeta)
  | stopContainers (session : ErSessionMeta)
  | wakeUpSession (sessionId : String)
  | updateActiveCount (processorInDb : Option ErProcessor) (sessionId : String)
  | countNodeResource (serverNodeId : Int)
deriving Repr, DecidableEq

inductive Op
  | lock (cache : LockCache) (key : String)
  | unLock (cache : LockCache) (key : String)
  | getSession (sessionId : String)
  | listProcessors (sessionId : String)
  | listAllResources
  | listResources (processorId : Int)
  | listOptions (sessionId : String)
  | saveSession (row : SessionMain)
  | updateSession (sessionId : String) (patch : SessionPatch)
  | saveOption (row : SessionOption)
  | getProcessor (processorId : Int)
  | saveProcessor (row : SessionProcessor)
  | updateProcessor (processorId : Int) (patch : ProcessorPatch)
  | getNodeResource (serverNodeId : Int) (resourceType : String)
  | updateNodeResource (row : NodeResource)
  | saveResource (row : ProcessorResource)
  | updateResource (key : ResourceKey) (status : String)
  | listHealthyNodes
  | addResidualHeartbeat (processor : ErProcessor)
  | callback
  | submit (task : Task)
  | polls
  | await
deriving Repr, DecidableEq

abbrev Ans : Op → Type
  | .getSession _ => Option SessionMain
  | .listProcessors _ => List SessionProcessor
  | .listResources _ => List ProcessorResource
  | .listOptions _ => List SessionOption
  | .getProcessor _ => Option SessionProcessor
  | .saveProcessor _ => Int
  | .getNodeResource _ _ => Option NodeResource
  | .listHealthyNodes => List ErServerNode
  | .polls => ℕ
  | .await => Bool
  | _ => Unit

/-- What is thrown: by the database, by a full pool, by a callback, by the code itself with a
message, and by the runtime. -/
inductive Failure
  | sql
  | duplicate
  | rejected
  | callback
  | runtime (message : String)
  | sessionException (message : String)
  | nullPointer
  | numberFormat
  | illegalArgument
deriving Repr, DecidableEq

/-- What a call meets: whether it fails, the healthy nodes, how often a deadline lets a loop
look again and whether a blocked request is woken. -/
structure Env where
  fails : Bool := false
  nodes : List ErServerNode := []
  polls : ℕ := 0
  awake : Bool := false
deriving Repr, DecidableEq

namespace Tables

def session (s : Tables) (sessionId : String) : Option SessionMain :=
  s.sessions.find? fun row => row.sessionId = sessionId

def processor (s : Tables) (processorId : Int) : Option SessionProcessor :=
  s.processors.find? fun row => row.processorId = processorId

def processorsOf (s : Tables) (sessionId : String) : List SessionProcessor :=
  s.processors.filter fun row => row.sessionId = sessionId

def resourcesOf (s : Tables) (processorId : Int) : List ProcessorResource :=
  s.processorResources.filter fun row => row.processorId = processorId

def optionsOf (s : Tables) (sessionId : String) : List SessionOption :=
  s.options.filter fun row => row.sessionId = sessionId

def nodeResource (s : Tables) (serverNodeId : Int) (resourceType : String) : Option NodeResource :=
  s.nodeResources.find? fun row => row.serverNodeId = serverNodeId ∧ row.resourceType = resourceType

def write (s : Tables) : Op → Tables
  | .saveSession row => { s with sessions := s.sessions ++ [row] }
  | .updateSession sessionId patch =>
    { s with sessions := s.sessions.map fun row => if row.sessionId = sessionId then patch.apply row else row }
  | .saveOption row => { s with options := s.options ++ [row] }
  | .saveProcessor row =>
    { s with processors := s.processors ++ [{ row with processorId := s.nextId }], nextId := s.nextId + 1 }
  | .updateProcessor processorId patch =>
    { s with processors := s.processors.map fun row =>
        if row.processorId = processorId then patch.apply row else row }
  | .updateNodeResource row =>
    { s with nodeResources := s.nodeResources.map fun other =>
        if other.serverNodeId = row.serverNodeId ∧ other.resourceType = row.resourceType then row else other }
  | .saveResource row => { s with processorResources := s.processorResources ++ [row] }
  | .updateResource key status =>
    { s with processorResources := s.processorResources.map fun row =>
        if key.meets row then { row with status := status } else row }
  | _ => s

def answer (s : Tables) (env : Env) : (op : Op) → Ans op
  | .getSession sessionId => s.session sessionId
  | .listProcessors sessionId => s.processorsOf sessionId
  | .listResources processorId => s.resourcesOf processorId
  | .listOptions sessionId => s.optionsOf sessionId
  | .getProcessor processorId => s.processor processorId
  | .saveProcessor _ => (s.nextId : Int)
  | .getNodeResource serverNodeId resourceType => s.nodeResource serverNodeId resourceType
  | .listHealthyNodes => env.nodes
  | .polls => env.polls
  | .await => env.awake
  | .lock _ _ | .unLock _ _ | .listAllResources | .saveSession _ | .updateSession _ _ | .saveOption _
  | .updateProcessor _ _ | .updateNodeResource _ | .saveResource _ | .updateResource _ _
  | .addResidualHeartbeat _ | .callback | .submit _ => ()

def failure : Op → Option Failure
  | .lock _ _ | .unLock _ _ | .polls | .await | .addResidualHeartbeat _ => none
  | .callback => some .callback
  | .submit _ => some .rejected
  | _ => some .sql

/-- The primary key of `session_main` refuses a second row. -/
def refuses (s : Tables) : Op → Bool
  | .saveSession row => (s.session row.sessionId).isSome
  | _ => false

def serve : Service Tables Op Ans Failure Env := fun s op env =>
  match if env.fails then failure op else none with
  | some e => some (s,.error e)
  | none => if s.refuses op then some (s,.error .duplicate) else some (s.write op,.ok (s.answer env op))

end Tables

end Eggroll.Cluster
