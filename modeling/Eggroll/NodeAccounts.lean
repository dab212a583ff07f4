import Eggroll.Library.Ledger
import Eggroll.Library.ReentrantLock
import Eggroll.SessionMachine

/-! Concurrent changes of processor statuses (`ProcessorStateMachine`) and the counters of the
nodes that they keep: every call is one step, and a lock is one of its machine's or of the
nodes. A change finds the status that it starts from in the table. -/
namespace Eggroll.Cluster.NodeAccounts
open Library
open Program hiding call

/-- A change of a processor's status; every caller leaves the status before it to the table. -/
structure Request where
  context : Context
  erProcessor : ErProcessor
  desStateParam : String
deriving Repr, DecidableEq

def Request.program (useResourceDispatch : Bool) (request : Request) : Change (Context × ErProcessor) :=
  (processorStateMachine useResourceDispatch).changeStatus request.context request.erProcessor ""
    request.desStateParam false

/-- How a processor's resources are charged to its node. -/
inductive Charge | nothing | asked | preAllocated | allocated
deriving Repr, DecidableEq

def chargeOf (status : String) : Charge :=
  if status = "NEW" then .preAllocated else if status = "RUNNING" then .allocated else .nothing

/-- A status that is stored and has not come to the node yet. -/
structure Move where
  processorId : Int
  target : Charge
deriving Repr, DecidableEq

/-- The tables and the locks. The other fields are history: what the first look of a request
at its processor has found, the move that it is in the middle of, how each processor is
charged, the resources it was created with, and the rows that were set to `return`. -/
structure State where
  tables : Tables
  locks : LockCache → String → ReentrantLock ℕ
  looked : ℕ → Option (Option SessionProcessor)
  moving : ℕ → Option Move
  charge : Int → Charge
  asked : Int → List ErResource
  returned : List ResourceKey

/-- What the resources of one type come to. -/
def amount (resources : List ErResource) (resourceType : String) : Int :=
  weigh (fun resource => resource.resourceType = resourceType) ErResource.allocated resources

def resources (tables : Tables) (processorId : Int) : List ErResource :=
  (tables.resourcesOf processorId).map ProcessorResource.toErResource

namespace State

def init (tables : Tables) : State :=
  ⟨tables,fun _ _ => .new,fun _ => none,fun _ => none,fun _ => .nothing,fun _ => [],[]⟩

def setLock (s : State) (cache : LockCache) (key : String) (lock : ReentrantLock ℕ) : State :=
  { s with locks := Function.update s.locks cache (Function.update (s.locks cache) key lock) }

def move (s : State) (id : ℕ) (move : Option Move) : State := { s with moving := Function.update s.moving id move }

def admitted (s : State) (serverNodeId : Int) (resourceType : String) : Int :=
  weigh (fun row => row.serverNodeId = serverNodeId ∧ s.charge row.processorId ≠ .nothing)
    (fun row => amount (s.asked row.processorId) resourceType) s.tables.processors

section
variable (useResourceDispatch : Bool) (requests : ℕ → Request)

def note (s : State) (id : ℕ) : Op → State
  | .getProcessor processorId =>
    { s with looked := Function.update s.looked id ((s.looked id).or (some (s.tables.processor processorId))) }
  | .saveProcessor row =>
    if checkNeedChangeResource useResourceDispatch row.toErProcessor then
      { s.move id (some ⟨s.tables.nextId,.preAllocated⟩) with
        charge := Function.update s.charge s.tables.nextId .asked
        asked := Function.update s.asked s.tables.nextId (requests id).erProcessor.resources }
    else s
  | .updateProcessor processorId patch =>
    match s.tables.processor processorId with
    | some row =>
      if checkNeedChangeResource useResourceDispatch row.toErProcessor then
        s.move id (some ⟨processorId,chargeOf patch.status⟩)
      else s
    | none => s
  | .updateResource key status => if status = "return" then { s with returned := s.returned ++ [key] } else s
  | .unLock .nodeResource _ =>
    match s.moving id with
    | some moved => { s.move id none with charge := Function.update s.charge moved.processorId moved.target }
    | none => s
  | _ => s

/-- The calls of one request. -/
def serve (id : ℕ) : Service State Op Ans Failure Env := fun s op env =>
  match op with
  | .lock cache key => ((s.locks cache key).lock id).map fun lock => (s.setLock cache key lock,.ok ())
  | .unLock cache key =>
    match (s.locks cache key).unlock id with
    | some lock => some ((s.note useResourceDispatch requests id (.unLock cache key)).setLock cache key lock,.ok ())
    | none => some (s,.error (.runtime ""))
  | op =>
    match s.tables.serve op env with
    | none => none
    | some (tables,.ok a) => some ({ s.note useResourceDispatch requests id op with tables := tables },.ok a)
    | some (tables,.error e) => some ({ s with tables := tables },.error e)

end
end State

abbrev Run := Pool State Request Op Ans Failure (Context × ErProcessor)

/-- Tables before the first processor. -/
structure Unused (tables : Tables) : Prop where
  processors : tables.processors = []
  processorResources : tables.processorResources = []
  nodes : ∀ serverNodeId resourceType row, tables.nodeResource serverNodeId resourceType = some row →
    row.preAllocated = 0 ∧ row.allocated = 0 ∧ 0 ≤ row.total

/-- The requests are given by their numbers; each may come in at any time. -/
def system (useResourceDispatch : Bool) (requests : ℕ → Request) (serve : ℕ → Service State Op Ans Failure Env) :
    System Run (Pool.Act Request Env) :=
  (Pool.system (fun s => ∃ tables, Unused tables ∧ s = .init tables) (Request.program useResourceDispatch) serve).restrict
    fun _ act => match act with
      | .invoke id request => request = requests id
      | .step _ _ => true

/-- The node has these resources left for a new processor. -/
def admits (s : State) (erProcessor : ErProcessor) : Bool :=
  erProcessor.status = "NEW" ∧ intValue erProcessor.serverNodeId = erProcessor.serverNodeId ∧
    ∀ resource ∈ erProcessor.resources, 0 ≤ resource.allocated ∧
      (s.tables.nodeResource erProcessor.serverNodeId resource.resourceType).any fun row =>
        s.admitted erProcessor.serverNodeId resource.resourceType +
          amount erProcessor.resources resource.resourceType ≤ row.total

/-- What an update and a sum see of a resource. -/
def kept (resource : ErResource) : ResourceKey × Int := (resource.key,resource.allocated)

/-- The processor that is given is on its node, with no resources or its own. -/
def carries (s : State) (erProcessor : ErProcessor) (row : SessionProcessor) : Bool :=
  erProcessor.serverNodeId = row.serverNodeId ∧ (erProcessor.resources = [] ∨
    erProcessor.resources.map kept = (resources s.tables row.processorId).map kept)

section
variable (useResourceDispatch : Bool) (requests : ℕ → Request)

/-- When a request may make a call: no call fails between the status and the node; a processor
with resources is created where they are left; and its status is changed where it is still the
one that the change has started from, its creation is over, and what is given is its own (for
one that has not run yet the table's row is taken). -/
def orderly (id : ℕ) (s : State) (op : Op) (env : Env) : Bool :=
  ((s.moving id).isNone || !env.fails) &&
    match op with
    | .saveProcessor row =>
      !checkNeedChangeResource useResourceDispatch row.toErProcessor || admits s (requests id).erProcessor
    | .updateProcessor processorId _ => ∀ row ∈ s.tables.processor processorId,
        checkNeedChangeResource useResourceDispatch row.toErProcessor →
          (s.looked id).map (fun found => found.map SessionProcessor.status) = some (some row.status) ∧
            s.charge processorId ≠ .asked ∧
            (row.status = "NEW" ∧ (requests id).desStateParam ≠ "RUNNING" ∨
              carries s (requests id).erProcessor row)
    | _ => true

def service (id : ℕ) : Service State Op Ans Failure Env :=
  (State.serve useResourceDispatch requests id).restrict (orderly useResourceDispatch requests id)

end

/-- The resources of a node's processors in this status. -/
def held (tables : Tables) (serverNodeId : Int) (resourceType status : String) : Int :=
  weigh (fun row => row.serverNodeId = serverNodeId ∧ row.status = status)
    (fun row => amount (resources tables row.processorId) resourceType) tables.processors

/-- The counters of every node are what its processors hold. -/
structure Balanced (tables : Tables) : Prop where
  preAllocated : ∀ serverNodeId resourceType row, tables.nodeResource serverNodeId resourceType = some row →
    row.preAllocated = held tables serverNodeId resourceType "NEW"
  allocated : ∀ serverNodeId resourceType row, tables.nodeResource serverNodeId resourceType = some row →
    row.allocated = held tables serverNodeId resourceType "RUNNING"

/-- The processor has its resources. -/
def live (row : SessionProcessor) : Bool := row.status = "NEW" ∨ row.status = "RUNNING"

/-- How often resources of this kind were acquired, and how often they were released. -/
def acquisitions (s : State) (resource : ProcessorResource) : ℕ :=
  s.tables.processorResources.countP fun other => resource.toErResource.key.meets other

def releases (s : State) (resource : ProcessorResource) : ℕ := s.returned.countP fun key => key.meets resource

def Quiet (p : Run) : Prop :=
  ∀ id request program, p.calls id = some (request,program) → ∃ result, p.Ended id request result

/-- The counters stay within the node, and wherever no change is in progress they balance and
every resource was released as often as it was acquired, or never while its processor has it. -/
structure Accounted (p : Run) : Prop where
  bounds : ∀ serverNodeId resourceType row, p.shared.tables.nodeResource serverNodeId resourceType = some row →
    0 ≤ row.preAllocated ∧ row.preAllocated ≤ row.total ∧ 0 ≤ row.allocated ∧ row.allocated ≤ row.total
  balanced : Quiet p → Balanced p.shared.tables
  released : Quiet p → ∀ row ∈ p.shared.tables.processors, ∀ resource ∈ p.shared.tables.resourcesOf row.processorId,
    releases p.shared resource = if live row then 0 else acquisitions p.shared resource

end Eggroll.Cluster.NodeAccounts
