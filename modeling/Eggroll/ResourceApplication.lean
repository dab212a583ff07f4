import Mathlib.Algebra.Ring.Int.Defs
import Mathlib.Algebra.Ring.Nat
import Mathlib.Data.List.Basic
import Eggroll.Library.PyString

/-! A request for the resources of a session and the check whether the cluster has them
(`ResourceApplication.java` and `checkResourceEnough` of `ClusterResourceManager.java`).
Longs are integers that wrap around. -/
namespace Eggroll

inductive JavaException
  | nullPointer
  | numberFormat
  | indexOutOfBounds
  | unsupportedOperation
  | runtimeException (message : String)
deriving Repr, DecidableEq

def long (x : Int) : Int := x.bmod (2 ^ 64)
def int (x : Int) : Int := x.bmod (2 ^ 32)

/-- `extention` is the text's parts between commas, null for `none`. -/
structure ErResource where
  resourceType : String
  total : Int := -1
  allocated : Int := -1
  preAllocated : Int := -1
  extention : Option (List String) := none
  status : String := "available"
deriving Repr, DecidableEq

def ErResource.getUnAllocatedResource (r : ErResource) : Int :=
  let remain := if 0 < r.allocated then long (r.total - r.allocated) else r.total
  if 0 < r.preAllocated then long (remain - r.preAllocated) else remain

structure ErServerNode where
  id : Int
  host : String
  resources : List ErResource
deriving Repr, DecidableEq

structure ErProcessor where
  processorType : String
  status : String
  serverNodeId : Option Int := none
  commandEndpoint : Option (String × Int) := none
  resources : List ErResource := []
  options : List (String × String) := []
deriving Repr, DecidableEq

/-- `options.put(key, value)`. -/
def ErProcessor.putOption (p : ErProcessor) (key value : String) : ErProcessor :=
  { p with options := (key,value) :: p.options.filter (fun option => option.1 ≠ key) }

/-- A processor object: one of those requested, by its place in the request, or one that
the `fix` strategy has made. -/
inductive ProcessorRef
  | requested (index : Nat)
  | created (index : Nat)
deriving Repr, DecidableEq

/-- `latch` says that the latch has been counted down; `created` are the processors that
the `fix` strategy has made; `resourceDispatch` refers to processor objects. -/
structure ResourceApplication where
  sessionId : String
  processors : List ErProcessor := []
  sortByResourceType : String := "VCPU_CORE"
  dispatchStrategy : Option String := some "single_node_first"
  resourceExhaustedStrategy : Option String := some "waiting"
  allowExhausted : Bool := false
  resourceDispatch : List (ProcessorRef × ErServerNode) := []
  latch : Bool := false
  timeout : Int := 0
  waitingCount : Int := 1
  status : Int := 0
  processorTypes : List String := []
  options : List (String × String) := []
  created : List ErProcessor := []
deriving Repr, DecidableEq

namespace Dict
def VCPU_CORE : String := "VCPU_CORE"
def VGPU_CORE : String := "VGPU_CORE"
def REMAIN_MOST_FIRST : String := "remain_most_first"
def RANDOM : String := "random"
def FIX : String := "fix"
def SINGLE_NODE_FIRST : String := "single_node_first"
def IGNORE : String := "ignore"
def WAITING : String := "waiting"
def THROW_ERROR : String := "throw_error"
def CONFKEY_SESSION_PROCESSORS_PER_NODE : String := "eggroll.session.processors.per.node"
end Dict

namespace ResourceApplication
open Library

/-- The processor object a reference stands for. -/
def object (app : ResourceApplication) : ProcessorRef → Option ErProcessor
  | .requested index => app.processors[index]?
  | .created index => app.created[index]?

def getOrDefault (options : List (String × String)) (key default : String) : String :=
  (options.lookup key).getD default

/-- `Integer.parseInt`. -/
def parseInt (text : String) : Except JavaException Int :=
  match parseSigned text.toList with
  | some n => if -(2 ^ 31) ≤ n ∧ n < 2 ^ 31 then .ok n else .error .numberFormat
  | none => .error .numberFormat

/-- The resources of one type, on all nodes. -/
def ofType (nodes : List ErServerNode) (type : String) : List ErResource :=
  nodes.flatMap (fun n => n.resources.filter (fun r => r.resourceType = type))

/-- `globalRemainResourceMap.get(type)`. -/
def globalRemain (nodes : List ErServerNode) (type : String) : Option Int :=
  match ofType nodes type with
  | [] => none
  | found => some (long (found.map ErResource.getUnAllocatedResource).sum)

/-- `globalMaxResourceMap.get(type)`. -/
def globalMax (nodes : List ErServerNode) (type : String) : Option Int :=
  match ofType nodes type with
  | [] => none
  | found => some (long (found.map ErResource.total).sum)

/-- `nodeRemainResourceMap.get(id).getOrDefault(type, 0)`. -/
def nodeRemain (nodes : List ErServerNode) (id : Int) (type : String) : Int :=
  long ((ofType (nodes.filter (fun n => n.id = id)) type).map ErResource.getUnAllocatedResource).sum

/-- `requestResourceMap.get(type)`. -/
def requested (processors : List ErProcessor) (type : String) : Int :=
  long ((processors.flatMap (fun p => p.resources.filter (fun r => r.resourceType = type))).map
    ErResource.allocated).sum

/-- The keys of `requestResourceMap`. -/
def requestedTypes (processors : List ErProcessor) : List String :=
  ((processors.flatMap ErProcessor.resources).map ErResource.resourceType).dedup

inductive Verdict
  | enough
  | short
  | impossible
deriving Repr, DecidableEq

/-- The loop over `requestResourceMap`: a type of which more is requested than the whole
cluster has ends it as impossible, one of which too little remains as short. -/
def checkTypes (nodes : List ErServerNode) (processors : List ErProcessor) : List String → Verdict
  | [] => .enough
  | type :: rest =>
    let request := requested processors type
    let remain := (globalRemain nodes type).getD (-1)
    if (globalMax nodes type).getD (-1) < request then .impossible
    else if -1 < int remain then
      if remain < request then .short else checkTypes nodes processors rest
    else .short

/-- `perNode` is the configured number of processors per node, `order` the order in which
a HashMap gives its keys. `null` nodes are a NullPointerException. -/
def checkResourceEnough (perNode : Int) (order : List String → List String)
    (erServerNodes : Option (List ErServerNode)) (app : ResourceApplication) :
    Except JavaException (Bool × ResourceApplication) :=
  match erServerNodes with
  | none => .error .nullPointer
  | some nodes =>
    if app.allowExhausted then .ok (true,app)
    else if app.dispatchStrategy = some Dict.FIX then
      match parseInt (getOrDefault app.options Dict.CONFKEY_SESSION_PROCESSORS_PER_NODE (toString perNode)) with
      | .error e => .error e
      | .ok eggsPerNode =>
        let resourceType := getOrDefault app.options "resourceType" Dict.VCPU_CORE
        let needed := int (eggsPerNode * app.processorTypes.length)
        .ok (nodes.all (fun n => needed ≤ nodeRemain nodes n.id resourceType),app)
    else
      match checkTypes nodes app.processors (order (requestedTypes app.processors)) with
      | .enough => .ok (true,app)
      | .short => .ok (false,app)
      | .impossible => .ok (false,{ app with resourceExhaustedStrategy := some Dict.THROW_ERROR })

theorem checkResourceEnough_keeps {perNode : Int} {order : List String → List String}
    {nodes : Option (List ErServerNode)} {app app' : ResourceApplication} {enough : Bool}
    (checked : checkResourceEnough perNode order nodes app = .ok (enough,app')) :
    app' = app ∨ enough = false ∧ app' = { app with resourceExhaustedStrategy := some Dict.THROW_ERROR } := by
  unfold checkResourceEnough at checked
  split at checked
  · cases checked
  · split at checked
    · cases checked
      exact .inl rfl
    · split at checked
      · split at checked
        · cases checked
        · cases checked
          exact .inl rfl
      · split at checked
        · cases checked
          exact .inl rfl
        · cases checked
          exact .inl rfl
        · cases checked
          exact .inr ⟨rfl,rfl⟩

end ResourceApplication
end Eggroll
