import Eggroll.Library.Filling
import Eggroll.NodePlacing

/-! `fixDispatch`: the list of a node's processors is made by `singletonList`, so the second
processor of a node cannot be added to it. -/
namespace Eggroll.ResourceDispatch
open Library ResourceApplication

/-- The processor that is made of a type for a node, with one unit of the resource. -/
def made (resourceType elem : String) (node : ErServerNode) : ErProcessor :=
  { processorType := elem, status := "NEW", serverNodeId := some node.id
    commandEndpoint := some (node.host,0)
    resources := [{ resourceType := resourceType, allocated := 1, status := "PRE_ALLOCATED" }] }

def cells (types : List String) (nodes eggsPerNode : ℕ) : List (String × ℕ) :=
  types.flatMap fun elem => (List.range nodes).flatMap fun i => List.replicate eggsPerNode (elem,i)

def Attempt.add (a : Attempt) (p : ErProcessor) (i : ℕ) : Attempt :=
  { a with
    app := { a.app with created := a.app.created ++ [p] }
    places := a.places ++ [(.created a.app.created.length,i)] }

section
variable {resourceType : String} {a : Attempt}

private theorem fixPlace_eq (distinct : a.nodes.Nodup) {elem : String} {i : ℕ} {node : ErServerNode}
    (there : a.nodes[i]? = some node) : fixPlace resourceType elem i a =
      if i ∈ a.places.map Prod.snd then (a,some .unsupportedOperation)
      else (a.add (made resourceType elem node) i,none) := by
  have within := (List.getElem?_eq_some_iff.mp there).1
  have used : (a.places.any fun placed => a.nodes[placed.2]? = some node) = true ↔ i ∈ a.places.map Prod.snd := by
    rw [List.any_eq_true,List.mem_map]
    refine exists_congr fun place => and_congr_right fun _ => ?_
    rw [decide_eq_true_eq,← there]
    exact eq_comm.trans ((List.getElem?_inj within distinct).trans eq_comm)
  simp only [fixPlace,there]
  by_cases inside : i ∈ a.places.map Prod.snd
  · rw [if_pos (used.mpr inside),if_pos inside]
  · rw [if_neg (mt used.mp inside),if_neg inside]
    rfl

private theorem fixPlaceAll_normal_iff (grid : List (String × ℕ)) (distinct : a.nodes.Nodup)
    (inside : ∀ cell ∈ grid, cell.2 < a.nodes.length) : (fixPlaceAll resourceType grid a).2 = none ↔
      (grid.map Prod.snd).Nodup ∧ ∀ cell ∈ grid, cell.2 ∉ a.places.map Prod.snd := by
  induction grid generalizing a with
  | nil => simp [fixPlaceAll]
  | cons cell rest ih =>
    obtain ⟨elem,i⟩ := cell
    have there : a.nodes[i]? = some _ := List.getElem?_eq_getElem (inside (elem,i) List.mem_cons_self)
    rw [fixPlaceAll,fixPlace_eq distinct there,List.map_cons,List.nodup_cons,List.forall_mem_cons]
    by_cases used : i ∈ a.places.map Prod.snd
    · rw [if_pos used]
      exact iff_of_false (by simp) fun both => both.2.1 used
    · rw [if_neg used]
      refine (ih (a := a.add _ i) distinct fun cell member => inside cell (List.mem_cons_of_mem _ member)).trans ?_
      simp only [Attempt.add,List.map_append,List.map_cons,List.map_nil,List.mem_append,List.mem_singleton,not_or]
      constructor
      · rintro ⟨once,apart⟩
        refine ⟨⟨fun again => ?_,once⟩,used,fun cell member => (apart cell member).1⟩
        obtain ⟨cell,member,same⟩ := List.mem_map.mp again
        exact (apart cell member).2 same
      · rintro ⟨⟨alone,once⟩,-,apart⟩
        exact ⟨once,fun cell member => ⟨apart cell member,fun same => alone (same ▸ List.mem_map_of_mem member)⟩⟩

private theorem fixPlaceAll_made (grid : List (String × ℕ)) (distinct : a.nodes.Nodup)
    (inside : ∀ cell ∈ grid, cell.2 < a.nodes.length) (normal : (fixPlaceAll resourceType grid a).2 = none) :
    let after := (fixPlaceAll resourceType grid a).1
    after.nodes = a.nodes ∧ after.app.resourceDispatch = a.app.resourceDispatch ∧
      after.app.created = a.app.created ++ grid.filterMap (fun cell => a.nodes[cell.2]?.map (made resourceType cell.1)) ∧
      after.places = a.places ++ (grid.zipIdx a.app.created.length).map fun cell => (.created cell.2,cell.1.2) := by
  induction grid generalizing a with
  | nil => simp [fixPlaceAll]
  | cons cell rest ih =>
    obtain ⟨elem,i⟩ := cell
    have there : a.nodes[i]? = some _ := List.getElem?_eq_getElem (inside (elem,i) List.mem_cons_self)
    rw [fixPlaceAll,fixPlace_eq distinct there] at normal ⊢
    by_cases used : i ∈ a.places.map Prod.snd
    · rw [if_pos used] at normal
      cases normal
    · rw [if_neg used] at normal ⊢
      obtain ⟨nodes,dispatch,created,places⟩ :=
        ih (a := a.add _ i) distinct (fun cell member => inside cell (List.mem_cons_of_mem _ member)) normal
      refine ⟨nodes,dispatch,created.trans ?_,places.trans ?_⟩
      · rw [List.filterMap_cons,there]
        simp [Attempt.add]
      · rw [List.zipIdx_cons,List.map_cons]
        simp [Attempt.add]

private theorem cells_count (types : List String) {nodes j : ℕ} (eggsPerNode : ℕ) (inside : j < nodes) :
    ((cells types nodes eggsPerNode).map Prod.snd).count j = types.length * eggsPerNode := by
  induction types with
  | nil => simp [cells]
  | cons elem rest ih =>
    have row : ((List.range nodes).flatMap fun i => List.replicate eggsPerNode (elem,i)).map Prod.snd =
        fill (fun _ => eggsPerNode) (List.range nodes) := by
      rw [fill,List.map_flatMap]
      simp
    rw [cells,List.flatMap_cons,List.map_append,List.count_append,row,
      fill_count _ List.nodup_range (List.mem_range.mpr inside)]
    rw [cells] at ih
    rw [ih,List.length_cons,Nat.succ_mul,Nat.add_comm]

private theorem mem_cells {types : List String} {nodes eggsPerNode : ℕ} {cell : String × ℕ}
    (member : cell ∈ cells types nodes eggsPerNode) : cell.2 < nodes := by
  obtain ⟨elem,-,inside⟩ := List.mem_flatMap.mp member
  obtain ⟨i,less,there⟩ := List.mem_flatMap.mp inside
  rw [(List.mem_replicate.mp there).2]
  exact List.mem_range.mp less

private theorem cells_nodup_iff (types : List String) {nodes : ℕ} (eggsPerNode : ℕ) (some_node : 0 < nodes) :
    ((cells types nodes eggsPerNode).map Prod.snd).Nodup ↔ types.length * eggsPerNode ≤ 1 := by
  rw [List.nodup_iff_count_le_one]
  constructor
  · intro once
    rw [← cells_count types eggsPerNode some_node]
    exact once 0
  · intro once j
    by_cases inside : j < nodes
    · rwa [cells_count types eggsPerNode inside]
    · rw [List.count_eq_zero_of_not_mem fun member => ?_]
      · exact Nat.zero_le _
      · obtain ⟨cell,there,rfl⟩ := List.mem_map.mp member
        exact inside (mem_cells there)

private theorem cells_nil {types : List String} {eggsPerNode : ℕ} (nodes : ℕ) (nothing : types = [] ∨ eggsPerNode = 0) :
    cells types nodes eggsPerNode = [] := by
  rcases nothing with rfl | rfl
  · rfl
  · simp [cells]

private theorem cells_one (elem : String) (nodes : ℕ) : cells [elem] nodes 1 = (List.range nodes).map fun i => (elem,i) := by
  rw [cells,List.flatMap_cons,List.flatMap_nil,List.append_nil]
  exact List.flatMap_pure_eq_map _ _

end

/-- The dispatch has, for each node and each type, so many processors of the type with the node,
each with one unit of the resource, and no others. -/
structure FullGrid (resourceType : String) (eggsPerNode : ℕ) (nodes : List ErServerNode) (app : ResourceApplication)
    (result : Result) : Prop where
  normal : result.2 = none
  dispatch : ∃ placed, result.1.resourceDispatch = app.resourceDispatch ++ placed ∧ (placed.map Prod.fst).Nodup ∧
    (∀ node ∈ nodes, ∀ elem ∈ app.processorTypes, (placed.countP fun pair => pair.2 = node ∧
      (result.1.object pair.1).map ErProcessor.processorType = some elem) = eggsPerNode) ∧
    ∀ pair ∈ placed, pair.2 ∈ nodes ∧ ∃ p, result.1.object pair.1 = some p ∧ p.processorType ∈ app.processorTypes ∧
      p.serverNodeId = some pair.2.id ∧ ∃ r, p.resources = [r] ∧ r.resourceType = resourceType ∧ r.allocated = 1 ∧
        r.status = "PRE_ALLOCATED"

section
variable {resourceType : String} {nodes : List ErServerNode} {app : ResourceApplication} (setting : Setting)

private theorem filterMap_get_range (nodes : List ErServerNode) :
    (List.range nodes.length).filterMap (fun k => nodes[k]?) = nodes := by
  induction nodes with
  | nil => rfl
  | cons node rest ih =>
    rw [List.length_cons,List.range_succ_eq_map,List.filterMap_cons,List.filterMap_map]
    exact congrArg (node :: ·) ih

private theorem grid_empty {eggsPerNode : ℕ} (nothing : app.processorTypes = [] ∨ eggsPerNode = 0) :
    FullGrid resourceType eggsPerNode nodes app (finish setting
      (fixPlaceAll resourceType (cells app.processorTypes nodes.length eggsPerNode) (begin nodes app))) := by
  rw [cells_nil nodes.length nothing]
  have none_placed : setting.placeOrder [] = [] := (setting.placed []).eq_nil
  refine ⟨rfl,[],?_,List.nodup_nil,fun node _ elem member => ?_,by simp⟩
  · change app.resourceDispatch ++ (setting.placeOrder []).filterMap _ = _
    rw [none_placed]
    rfl
  · rcases nothing with no_types | rfl
    · rw [no_types] at member
      cases member
    · rfl

private theorem grid_of_made (ids : (nodes.map ErServerNode.id).Nodup) {elem : String} (types : app.processorTypes = [elem])
    {after : Attempt} (same : after.nodes = nodes) (dispatch : after.app.resourceDispatch = app.resourceDispatch)
    (created : after.app.created = app.created ++ nodes.map (made resourceType elem))
    (listed : after.places = (List.range nodes.length).map fun k => (.created (app.created.length + k),k)) :
    FullGrid resourceType 1 nodes app (finish setting (after,none)) := by
  have object {k : ℕ} {node : ErServerNode} (there : nodes[k]? = some node) :
      (collect setting after).object (.created (app.created.length + k)) = some (made resourceType elem node) := by
    have looked : (collect setting after).object (.created (app.created.length + k)) =
        after.app.created[app.created.length + k]? := rfl
    rw [looked,created,List.getElem?_append_right (Nat.le_add_right ..),Nat.add_sub_cancel_left,List.getElem?_map,there]
    rfl
  have inside : ∀ place ∈ after.places, place.2 < after.nodes.length := by
    rw [listed,same]
    simp
  have perm := setting.placed after.places
  let placed := (setting.placeOrder after.places).filterMap fun place =>
    after.nodes[place.2]?.map fun node => (place.1,node)
  have listing : placed.Perm ((List.range nodes.length).filterMap fun k =>
      nodes[k]?.map fun node => (.created (app.created.length + k),node)) := by
    refine (perm.filterMap _).trans (List.Perm.of_eq ?_)
    rw [listed,same,List.filterMap_map]
    rfl
  refine ⟨rfl,placed,congrArg (· ++ placed) dispatch,?_,fun node known elem' member => ?_,fun pair member => ?_⟩
  · have refs := collected fun place member => inside place (perm.mem_iff.mp member)
    rw [refs,(perm.map Prod.fst).nodup_iff,listed,List.map_map]
    exact List.nodup_range.map fun i j same => by simpa using same
  · -- of the one type there is one processor with the node, that of its place
    rw [types] at member
    obtain rfl := List.mem_singleton.mp member
    obtain ⟨j,at_j⟩ := List.mem_iff_getElem?.mp known
    have less := (List.getElem?_eq_some_iff.mp at_j).1
    rw [listing.countP_eq,List.countP_filterMap]
    refine Eq.trans (List.countP_congr fun k member => ?_)
      (List.count_eq_one_of_mem List.nodup_range (List.mem_range.mpr less) : (List.range nodes.length).count j = 1)
    have within := List.mem_range.mp member
    have there := List.getElem?_eq_getElem within
    have same_place : nodes[k] = node ↔ k = j := by
      rw [← Option.some_inj,← there,← at_j]
      exact List.getElem?_inj within ids.of_map
    rw [there,Option.map_some,Option.map_some,Option.getD_some,decide_eq_true_eq,beq_iff_eq,← same_place]
    exact and_iff_left (by rw [finish,object there]; rfl)
  · obtain ⟨k,-,found⟩ := List.mem_filterMap.mp (listing.mem_iff.mp member)
    obtain ⟨node,there,rfl⟩ := Option.map_eq_some_iff.mp found
    exact ⟨List.mem_of_getElem? there,_,object there,by simp [types,made],rfl,_,rfl,rfl,rfl,rfl⟩

private theorem grid_one (ids : (nodes.map ErServerNode.id).Nodup) {elem : String} (types : app.processorTypes = [elem]) :
    FullGrid resourceType 1 nodes app (finish setting
      (fixPlaceAll resourceType (cells app.processorTypes nodes.length 1) (begin nodes app))) := by
  have distinct : nodes.Nodup := ids.of_map
  have inside : ∀ cell ∈ cells app.processorTypes nodes.length 1, cell.2 < (begin nodes app).nodes.length :=
    fun cell member => mem_cells member
  have normal : (fixPlaceAll resourceType (cells app.processorTypes nodes.length 1) (begin nodes app)).2 = none := by
    refine (fixPlaceAll_normal_iff _ distinct inside).mpr ⟨?_,by simp [begin]⟩
    rw [types,cells_one,List.map_map]
    simpa [Function.comp_def] using List.nodup_range
  obtain ⟨same,dispatch,created,places⟩ := fixPlaceAll_made _ distinct inside normal
  have split : fixPlaceAll resourceType (cells app.processorTypes nodes.length 1) (begin nodes app) = (_,none) :=
    Prod.ext rfl normal
  rw [split]
  refine grid_of_made setting ids types same dispatch (created.trans ?_) (places.trans ?_)
  · rw [types,cells_one,List.filterMap_map]
    simp only [Function.comp_def,begin]
    rw [← List.map_filterMap,filterMap_get_range]
  · rw [types,cells_one]
    exact List.ext_getElem (by simp [begin]) fun k _ _ => by simp [begin]

/-- The grid is full just where each node gets one processor at most. -/
theorem fix_exact (some_node : nodes ≠ []) (ids : (nodes.map ErServerNode.id).Nodup) {eggsPerNode : Int}
    (parsed : parseInt (getOrDefault app.options Dict.CONFKEY_SESSION_PROCESSORS_PER_NODE (toString setting.perNode)) =
      .ok eggsPerNode) :
    FullGrid (getOrDefault app.options "resourceType" Dict.VCPU_CORE) eggsPerNode.toNat nodes app
        (fixDispatch setting nodes app) ↔
      app.processorTypes.length * eggsPerNode.toNat ≤ 1 := by
  have placed : fixDispatch setting nodes app = finish setting (fixPlaceAll
      (getOrDefault app.options "resourceType" Dict.VCPU_CORE)
      (cells app.processorTypes nodes.length eggsPerNode.toNat) (begin nodes app)) := by
    rw [fixDispatch,parsed]
    rfl
  rw [placed]
  constructor
  · intro full
    have once := (fixPlaceAll_normal_iff _ (show (begin nodes app).nodes.Nodup from ids.of_map)
      fun cell member => mem_cells member).mp (finish_normal_iff.mp full.normal)
    exact (cells_nodup_iff _ _ (List.length_pos_iff.mpr some_node)).mp once.1
  · intro at_most_one
    by_cases nothing : app.processorTypes = [] ∨ eggsPerNode.toNat = 0
    · exact grid_empty setting nothing
    · rw [not_or] at nothing
      have some_type := List.length_pos_iff.mpr nothing.1
      have some_egg := Nat.pos_of_ne_zero nothing.2
      have product := Nat.le_antisymm at_most_one (Nat.mul_pos some_type some_egg)
      have one_type := Nat.eq_one_of_mul_eq_one_right product
      have one_egg := Nat.eq_one_of_mul_eq_one_left product
      obtain ⟨elem,types⟩ := List.length_eq_one_iff.mp one_type
      rw [one_egg]
      exact grid_one setting ids types

end

/-- A request for processors of the types, `eggsPerNode` for each node. -/
def typesRequest (types : List String) (eggsPerNode : ℕ) : ResourceApplication where
  sessionId := "session"
  dispatchStrategy := some Dict.FIX
  processorTypes := types
  options := [(Dict.CONFKEY_SESSION_PROCESSORS_PER_NODE,toString eggsPerNode)]

private theorem typesRequest_parsed (types : List String) (eggsPerNode : ℕ) (small : eggsPerNode < 2 ^ 31) (perNode : Int) :
    parseInt (getOrDefault (typesRequest types eggsPerNode).options Dict.CONFKEY_SESSION_PROCESSORS_PER_NODE
      (toString perNode)) = .ok eggsPerNode := by
  have text : getOrDefault (typesRequest types eggsPerNode).options Dict.CONFKEY_SESSION_PROCESSORS_PER_NODE
      (toString perNode) = toString eggsPerNode := by
    simp [getOrDefault,typesRequest]
  have value : parseSigned (toString eggsPerNode).toList = some (eggsPerNode : Int) := parseSigned_decimals eggsPerNode
  rw [text,parseInt,value]
  simp only
  rw [if_pos (by omega)]

theorem fix_exact_one : FullGrid Dict.VCPU_CORE 1 [coreNode 1 4,coreNode 2 4] (typesRequest ["egg_pair"] 1)
    (fixDispatch inOrder [coreNode 1 4,coreNode 2 4] (typesRequest ["egg_pair"] 1)) :=
  (fix_exact inOrder (by simp) (by decide) (typesRequest_parsed ["egg_pair"] 1 (by decide) 1)).mpr (by decide)

/-- The second processor of a node's list cannot be added. -/
theorem fix_second_refused : ¬ ∀ setting nodes app eggsPerNode, nodes ≠ [] → (nodes.map ErServerNode.id).Nodup →
    app.processorTypes.Nodup → 0 ≤ eggsPerNode →
    parseInt (getOrDefault app.options Dict.CONFKEY_SESSION_PROCESSORS_PER_NODE (toString setting.perNode)) =
      .ok eggsPerNode →
      FullGrid (getOrDefault app.options "resourceType" Dict.VCPU_CORE) eggsPerNode.toNat nodes app
        (fixDispatch setting nodes app) := by
  intro all
  have parsed := typesRequest_parsed ["egg_pair"] 2 (by decide) 1
  have full := all inOrder [coreNode 1 4] (typesRequest ["egg_pair"] 2) 2 (by simp) (by decide) (by decide) (by decide)
    parsed
  exact absurd full.normal (by decide +kernel)

end Eggroll.ResourceDispatch
