import Mathlib.Algebra.Order.BigOperators.Group.List
import Mathlib.Algebra.Order.Ring.Int
import Eggroll.ResourceApplication

/-! The admission of an application (`checkResourceEnough`) against what it is for: of each
type that is requested, the nodes have as much left. The amount left is narrowed to an int
on the way. -/
namespace Eggroll.ResourceApplication

theorem long_of_range {x : Int} (low : -(2 ^ 63) ≤ x) (high : x < 2 ^ 63) : long x = x :=
  Int.bmod_eq_of_le (by omega) (by omega)

/-- What a resource has left, where nothing wraps around. -/
def left (r : ErResource) : Int := r.total - r.allocated - r.preAllocated

def unallocated (nodes : List ErServerNode) (type : String) : Int := ((ofType nodes type).map left).sum

def requestedUnits (processors : List ErProcessor) (type : String) : Int :=
  ((processors.flatMap fun p => p.resources.filter fun r => r.resourceType = type).map ErResource.allocated).sum

/-- The amounts of the nodes' resources are non-negative longs whose sums are longs. -/
structure Measured (nodes : List ErServerNode) : Prop where
  amounts : ∀ node ∈ nodes, ∀ r ∈ node.resources, 0 ≤ r.total ∧ 0 ≤ r.allocated ∧ 0 ≤ r.preAllocated
  totals : ∀ type, ((ofType nodes type).map ErResource.total).sum < 2 ^ 63
  taken : ∀ type, ((ofType nodes type).map fun r => r.allocated + r.preAllocated).sum < 2 ^ 63

/-- So are the amounts that the processors request. -/
structure MeasuredRequest (processors : List ErProcessor) : Prop where
  amounts : ∀ p ∈ processors, ∀ r ∈ p.resources, 0 ≤ r.allocated
  sums : ∀ type, requestedUnits processors type < 2 ^ 63

/-- Of each type that is requested, the nodes have as much left. -/
def Fits (nodes : List ErServerNode) (processors : List ErProcessor) : Prop :=
  ∀ type ∈ requestedTypes processors, requestedUnits processors type ≤ unallocated nodes type

private theorem getUnAllocatedResource_eq {r : ErResource} (total : 0 ≤ r.total ∧ r.total < 2 ^ 63)
    (allocated : 0 ≤ r.allocated) (preAllocated : 0 ≤ r.preAllocated)
    (taken : r.allocated + r.preAllocated < 2 ^ 63) : r.getUnAllocatedResource = left r := by
  have remain : (if 0 < r.allocated then long (r.total - r.allocated) else r.total) = r.total - r.allocated := by
    split
    · exact long_of_range (by omega) (by omega)
    · omega
  rw [ErResource.getUnAllocatedResource,remain,left]
  split
  · exact long_of_range (by omega) (by omega)
  · omega

theorem mem_ofType {nodes : List ErServerNode} {type : String} {r : ErResource} :
    r ∈ ofType nodes type ↔ ∃ node ∈ nodes, r ∈ node.resources ∧ r.resourceType = type := by
  simp [ofType,List.mem_flatMap,List.mem_filter]

private theorem single_le {α : Type} {items : List α} (amount : α → Int) (positive : ∀ x ∈ items, 0 ≤ amount x) {x : α}
    (member : x ∈ items) : amount x ≤ (items.map amount).sum := by
  refine List.single_le_sum (fun a inside => ?_) _ (List.mem_map_of_mem member)
  obtain ⟨y,there,rfl⟩ := List.mem_map.mp inside
  exact positive y there

private theorem sum_left (found : List ErResource) : (found.map left).sum =
    (found.map ErResource.total).sum - (found.map fun r => r.allocated + r.preAllocated).sum := by
  induction found with
  | nil => rfl
  | cons r rest ih =>
    rw [List.map_cons,List.map_cons,List.map_cons,List.sum_cons,List.sum_cons,List.sum_cons,ih,left]
    omega

section
variable {nodes : List ErServerNode} {processors : List ErProcessor} {type : String}

theorem Measured.nonneg (measured : Measured nodes) : ∀ r ∈ ofType nodes type,
    0 ≤ r.total ∧ 0 ≤ r.allocated ∧ 0 ≤ r.preAllocated := by
  intro r member
  obtain ⟨node,known,inside,-⟩ := mem_ofType.mp member
  exact measured.amounts node known r inside

theorem Measured.getUnAllocatedResource (measured : Measured nodes) {r : ErResource} (member : r ∈ ofType nodes type) :
    r.getUnAllocatedResource = left r := by
  obtain ⟨total,allocated,preAllocated⟩ := measured.nonneg r member
  have least := single_le ErResource.total (fun r inside => (measured.nonneg r inside).1) member
  have below := single_le (fun r => r.allocated + r.preAllocated)
    (fun r inside => by have := measured.nonneg r inside; omega) member
  have totals := measured.totals type
  have taken := measured.taken type
  exact getUnAllocatedResource_eq ⟨total,by omega⟩ allocated preAllocated (Int.lt_of_le_of_lt below taken)

theorem Measured.sums (measured : Measured nodes) (type : String) :
    0 ≤ ((ofType nodes type).map ErResource.total).sum ∧
      0 ≤ ((ofType nodes type).map fun r => r.allocated + r.preAllocated).sum := by
  constructor
  · refine List.sum_nonneg fun a inside => ?_
    obtain ⟨r,member,rfl⟩ := List.mem_map.mp inside
    exact (measured.nonneg r member).1
  · refine List.sum_nonneg fun a inside => ?_
    obtain ⟨r,member,rfl⟩ := List.mem_map.mp inside
    have := measured.nonneg r member
    omega

theorem globalRemain_eq (measured : Measured nodes) (reported : ofType nodes type ≠ []) :
    globalRemain nodes type = some (unallocated nodes type) := by
  have each : (ofType nodes type).map ErResource.getUnAllocatedResource = (ofType nodes type).map left :=
    List.map_congr_left fun r member => measured.getUnAllocatedResource member
  have sums := measured.sums type
  have totals := measured.totals type
  have taken := measured.taken type
  have whole : long ((ofType nodes type).map left).sum = ((ofType nodes type).map left).sum := by
    rw [sum_left]
    exact long_of_range (by omega) (by omega)
  unfold globalRemain unallocated
  split
  · contradiction
  · rw [each,whole]

private theorem globalMax_eq (measured : Measured nodes) (reported : ofType nodes type ≠ []) :
    globalMax nodes type = some ((ofType nodes type).map ErResource.total).sum := by
  have sums := measured.sums type
  have totals := measured.totals type
  unfold globalMax
  split
  · contradiction
  · rw [long_of_range (by omega) totals]

private theorem unallocated_le (measured : Measured nodes) (type : String) :
    unallocated nodes type ≤ ((ofType nodes type).map ErResource.total).sum := by
  have sums := measured.sums type
  rw [unallocated,sum_left]
  omega

theorem requested_eq (measured : MeasuredRequest processors) (type : String) :
    requested processors type = requestedUnits processors type := by
  refine long_of_range ?_ (measured.sums type)
  have positive : 0 ≤ requestedUnits processors type := by
    refine List.sum_nonneg fun a inside => ?_
    obtain ⟨r,member,rfl⟩ := List.mem_map.mp inside
    obtain ⟨p,known,there⟩ := List.mem_flatMap.mp member
    exact measured.amounts p known r (List.mem_filter.mp there).1
  unfold requestedUnits at positive
  omega

theorem checkTypes_enough (types : List String) : checkTypes nodes processors types = .enough ↔
    ∀ type ∈ types, requested processors type ≤ (globalMax nodes type).getD (-1) ∧
      -1 < int ((globalRemain nodes type).getD (-1)) ∧
      requested processors type ≤ (globalRemain nodes type).getD (-1) := by
  induction types with
  | nil => simp [checkTypes]
  | cons type rest ih =>
    rw [List.forall_mem_cons,← ih,checkTypes]
    split
    · simp; omega
    · split
      · split
        · simp; omega
        · simp; omega
      · simp; omega

end

/-- What is left of a type does not become negative when it is narrowed to an int. -/
def Narrow (nodes : List ErServerNode) (processors : List ErProcessor) : Prop :=
  ∀ type ∈ requestedTypes processors, 0 ≤ int (unallocated nodes type)

section
variable {perNode : Int} {order : List String → List String} {nodes : List ErServerNode} {app : ResourceApplication}

private theorem tests_iff (measured : Measured nodes) (request : MeasuredRequest app.processors)
    (reported : ∀ type ∈ requestedTypes app.processors, ofType nodes type ≠ [])
    (ordered : ∀ types, (order types).Perm types) :
    checkTypes nodes app.processors (order (requestedTypes app.processors)) = .enough ↔
      Fits nodes app.processors ∧ Narrow nodes app.processors := by
  rw [checkTypes_enough,Fits,Narrow,← forall₂_and]
  simp only [(ordered _).mem_iff]
  refine forall₂_congr fun type member => ?_
  have most := unallocated_le measured type
  rw [globalRemain_eq measured (reported type member),globalMax_eq measured (reported type member),requested_eq request]
  simp only [Option.getD_some]
  omega

theorem accepted_iff (exhausted : app.allowExhausted = false) (strategy : app.dispatchStrategy ≠ some Dict.FIX) :
    (∃ app', checkResourceEnough perNode order (some nodes) app = .ok (true,app')) ↔
      checkTypes nodes app.processors (order (requestedTypes app.processors)) = .enough := by
  unfold checkResourceEnough
  simp only [exhausted,Bool.false_eq_true,if_false,if_neg strategy]
  cases checkTypes nodes app.processors (order (requestedTypes app.processors)) <;> simp

/-- Admission is exact unless it is the narrowing that refuses the application. -/
theorem admission_exact (perNode : Int) (measured : Measured nodes) (request : MeasuredRequest app.processors)
    (exhausted : app.allowExhausted = false) (strategy : app.dispatchStrategy ≠ some Dict.FIX)
    (reported : ∀ type ∈ requestedTypes app.processors, ofType nodes type ≠ [])
    (ordered : ∀ types, (order types).Perm types) :
    ((∃ app', checkResourceEnough perNode order (some nodes) app = .ok (true,app')) ↔ Fits nodes app.processors) ↔
      ¬ Fits nodes app.processors ∨ Narrow nodes app.processors := by
  rw [accepted_iff exhausted strategy,tests_iff measured request reported ordered]
  tauto

end

def memoryNode (total : Int) : ErServerNode :=
  ⟨1,"host",[{ resourceType := "HEAP_MEMORY", total := total, allocated := 0, preAllocated := 0 }]⟩

def memoryRequest (units : Int) : ResourceApplication where
  sessionId := "session"
  processors := [{ processorType := "egg_pair", status := "NEW"
                   resources := [{ resourceType := "HEAP_MEMORY", allocated := units }] }]

private theorem memoryNode_measured {total : Int} (range : 0 ≤ total ∧ total < 2 ^ 63) : Measured [memoryNode total] where
  amounts := by simp [memoryNode,range.1]
  totals type := by
    by_cases this : "HEAP_MEMORY" = type
    · simpa [ofType,memoryNode,this] using range.2
    · simp [ofType,memoryNode,this]
  taken type := by
    by_cases this : "HEAP_MEMORY" = type <;> simp [ofType,memoryNode,this]

private theorem memoryRequest_measured {units : Int} (range : 0 ≤ units ∧ units < 2 ^ 63) :
    MeasuredRequest (memoryRequest units).processors where
  amounts := by simp [memoryRequest,range.1]
  sums type := by
    by_cases this : "HEAP_MEMORY" = type
    · simpa [requestedUnits,memoryRequest,this] using range.2
    · simp [requestedUnits,memoryRequest,this]

theorem admission_exact_memory :
    (∃ app', checkResourceEnough 1 id (some [memoryNode 8000]) (memoryRequest 5000) = .ok (true,app')) ↔
      Fits [memoryNode 8000] (memoryRequest 5000).processors := by
  refine (admission_exact 1 (memoryNode_measured (by decide)) (memoryRequest_measured (by decide)) rfl (by decide)
    ?_ fun _ => .refl _).mpr (.inr ?_)
  · decide +kernel
  · unfold Narrow
    decide +kernel

/-- 2147483648 bytes are left and one is requested, but the amount narrowed to an int is
negative. -/
theorem admission_narrowed : ¬ ∀ perNode order nodes app, Measured nodes → MeasuredRequest app.processors →
    app.allowExhausted = false → app.dispatchStrategy ≠ some Dict.FIX →
    (∀ type ∈ requestedTypes app.processors, ofType nodes type ≠ []) → (∀ types, (order types).Perm types) →
      ((∃ app', checkResourceEnough perNode order (some nodes) app = .ok (true,app')) ↔ Fits nodes app.processors) := by
  intro exact_
  have fits : Fits [memoryNode (2 ^ 31)] (memoryRequest 1).processors := by
    unfold Fits
    decide +kernel
  obtain ⟨app',accepted⟩ := (exact_ 1 id [memoryNode (2 ^ 31)] (memoryRequest 1) (memoryNode_measured (by decide))
    (memoryRequest_measured (by decide)) rfl (by decide) (by decide +kernel) fun _ => .refl _).mpr fits
  have refused : checkResourceEnough 1 id (some [memoryNode (2 ^ 31)]) (memoryRequest 1) =
    .ok (false,memoryRequest 1) := by decide +kernel
  rw [refused] at accepted
  cases accepted

end Eggroll.ResourceApplication
