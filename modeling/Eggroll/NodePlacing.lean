import Mathlib.Data.List.Count
import Eggroll.ResourceDispatch

/-! Where a strategy puts the requested processors: what the loop over them needs to come to
its end, what holds all along it, and what the dispatch says afterwards. -/
namespace Eggroll.ResourceDispatch
open Library

section
variable {choose : ℕ → Option ℕ}

@[simp] theorem place_nodes_length (a : Attempt) (index : ℕ) (processor : ErProcessor) (i : ℕ) (node : ErServerNode) :
    (place a index processor i node).nodes.length = a.nodes.length := by
  simp [place]

theorem chosen_iff {k : ℕ} {a : Attempt} {i : ℕ} {node : ErServerNode} :
    (choose k).bind (fun i => a.nodes[i]?.map fun node => (i,node)) = some (i,node) ↔
      choose k = some i ∧ a.nodes[i]? = some node := by
  constructor
  · intro chosen
    obtain ⟨j,at_k,mapped⟩ := Option.bind_eq_some_iff.mp chosen
    obtain ⟨node',there,pair⟩ := Option.map_eq_some_iff.mp mapped
    cases pair
    exact ⟨at_k,there⟩
  · rintro ⟨at_k,there⟩
    rw [at_k,Option.bind_some,there]
    rfl

theorem placeAll_normal_iff (rest : List ErProcessor) (index : ℕ) (a : Attempt) :
    (placeAll choose rest index a).2 = none ↔
      ∀ k < rest.length, ∃ i, choose (index + k) = some i ∧ i < a.nodes.length := by
  induction rest generalizing index a with
  | nil => simp [placeAll]
  | cons processor rest ih =>
    rw [placeAll]
    split
    · rename_i none_chosen
      refine iff_of_false (by simp) fun all => ?_
      obtain ⟨i,at_index,within⟩ := all 0 (by simp)
      rw [Nat.add_zero] at at_index
      simp [at_index,within] at none_chosen
    · rename_i i node chosen
      obtain ⟨at_index,there⟩ := chosen_iff.mp chosen
      rw [ih]
      simp only [place_nodes_length]
      constructor
      · rintro all (_ | k) less
        · exact ⟨i,at_index,(List.getElem?_eq_some_iff.mp there).1⟩
        · have later := all k (Nat.lt_of_succ_lt_succ less)
          rwa [Nat.add_assoc,Nat.add_comm 1] at later
      · intro all k less
        have later := all (k + 1) (Nat.succ_lt_succ less)
        rwa [Nat.add_comm k,← Nat.add_assoc] at later

theorem finish_normal_iff {setting : Setting} {after : Attempt × Option JavaException} :
    (finish setting after).2 = none ↔ after.2 = none := by
  obtain ⟨a,_ | e⟩ := after <;> simp [finish]

theorem sortNodes_perm (nodes : List ErServerNode) (app : ResourceApplication) (sign : Int) (tupes : List ℕ) :
    (sortNodes nodes app sign tupes).Perm tupes := List.perm_insertionSort _ _

theorem placeAll_invariant {Inv : ℕ → Attempt → Prop} {processors : List ErProcessor}
    (round : ∀ k processor i node a, Inv k a → processors[k]? = some processor → choose k = some i →
      a.nodes[i]? = some node → Inv (k + 1) (place a k processor i node))
    (rest : List ErProcessor) (index : ℕ) {a : Attempt} (these : processors.drop index = rest) (start : Inv index a)
    (normal : (placeAll choose rest index a).2 = none) :
    Inv (index + rest.length) (placeAll choose rest index a).1 := by
  induction rest generalizing index a with
  | nil => exact start
  | cons processor rest ih =>
    obtain ⟨first,others⟩ := of_drop_eq_cons these
    rw [placeAll] at normal ⊢
    split at normal
    · cases normal
    · rename_i i node chosen
      obtain ⟨at_index,there⟩ := chosen_iff.mp chosen
      have later := ih (index + 1) others (round index processor i node a start first at_index there) normal
      rwa [List.length_cons,Nat.add_comm rest.length,← Nat.add_assoc]

end

/-- The dispatch has each requested processor once, the `i`-th with the node at `place i`, and
the processor has the id of that node. -/
structure Assigned (nodes : List ErServerNode) (app : ResourceApplication) (result : Result) (place : ℕ → ℕ) :
    Prop where
  normal : result.2 = none
  inside : ∀ i < app.processors.length, place i < nodes.length
  dispatch : ∃ placed, result.1.resourceDispatch = app.resourceDispatch ++ placed ∧
    (placed.map fun pair => (pair.1,some pair.2.id)).Perm ((List.range app.processors.length).map fun i =>
      (ProcessorRef.requested i,nodes[place i]?.map ErServerNode.id))
  served : ∀ i < app.processors.length, ∃ p, result.1.processors[i]? = some p ∧
    p.serverNodeId = nodes[place i]?.map ErServerNode.id

def amount (nodes : List ErServerNode) (app : ResourceApplication) (j : ℕ) : Int :=
  (nodes[j]?.map fun node => getFirstUnAllocatedResource node app).getD 0

/-- One of the processor's resources is of the type, and it is one unit. -/
def OneUnit (type : String) (p : ErProcessor) : Prop :=
  (p.resources.filter fun r => r.resourceType = type).map ErResource.allocated = [1]

/-- How many of the first `n` processors are at a node. -/
def given (n : ℕ) (place : ℕ → ℕ) (node : ℕ) : ℕ := ((List.range n).map place).count node

theorem given_succ (k : ℕ) (place : ℕ → ℕ) (j : ℕ) :
    given (k + 1) place j = given k place j + if place k = j then 1 else 0 := by
  rw [given,List.range_succ,List.map_append,List.count_append,List.map_singleton,List.count_singleton]
  simp [given]

theorem given_mono {k n : ℕ} (place : ℕ → ℕ) (j : ℕ) (le : k ≤ n) : given k place j ≤ given n place j :=
  ((List.range_sublist.mpr le).map place).count_le j

/-- The processors before `k` are at their nodes. -/
structure Put (nodes : List ErServerNode) (app : ResourceApplication) (place : ℕ → ℕ) (k : ℕ) (a : Attempt) :
    Prop where
  ids : a.nodes.map ErServerNode.id = nodes.map ErServerNode.id
  count : a.app.processors.length = app.processors.length
  dispatch : a.app.resourceDispatch = app.resourceDispatch
  places : a.places = (List.range k).map fun i => (.requested i,place i)
  served : ∀ i < k, ∃ p, a.app.processors[i]? = some p ∧ p.serverNodeId = nodes[place i]?.map ErServerNode.id

section
variable {nodes : List ErServerNode} {app : ResourceApplication} {spot : ℕ → ℕ} {choose : ℕ → Option ℕ} {a : Attempt}

theorem Put.begin (nodes : List ErServerNode) (app : ResourceApplication) (spot : ℕ → ℕ) :
    Put nodes app spot 0 (begin nodes app) :=
  ⟨rfl,rfl,rfl,rfl,fun _ less => absurd less (Nat.not_lt_zero _)⟩

theorem ids_get {all : List ErServerNode} (ids : all.map ErServerNode.id = nodes.map ErServerNode.id) (i : ℕ) :
    all[i]?.map ErServerNode.id = nodes[i]?.map ErServerNode.id := by
  rw [← List.getElem?_map,ids,List.getElem?_map]

theorem Put.next {k : ℕ} (put : Put nodes app spot k a) {node node' : ErServerNode} {placed : ErProcessor}
    (there : a.nodes[spot k]? = some node) (same : node'.id = node.id) (more : k < app.processors.length)
    (server : placed.serverNodeId = some node.id) :
    Put nodes app spot (k + 1) ⟨a.nodes.set (spot k) node',{ a.app with processors := a.app.processors.set k placed },
      a.places ++ [(.requested k,spot k)]⟩ where
  ids := by
    rw [← put.ids,List.map_set]
    refine List.ext_getElem? fun i => ?_
    by_cases this : spot k = i
    · subst this
      rw [List.getElem?_set_self (by simpa using (List.getElem?_eq_some_iff.mp there).1),List.getElem?_map,there,same]
      rfl
    · rw [List.getElem?_set_ne this]
  count := by simpa using put.count
  dispatch := put.dispatch
  places := by rw [put.places,List.range_succ,List.map_append]; rfl
  served := by
    intro i less
    by_cases this : k = i
    · subst this
      refine ⟨placed,List.getElem?_set_self (by rw [put.count]; exact more),?_⟩
      rw [server,← ids_get put.ids,there]
      rfl
    · obtain ⟨p,at_i,server⟩ := put.served i (by omega)
      exact ⟨p,by rw [← at_i]; exact List.getElem?_set_ne this,server⟩

theorem Put.place {k : ℕ} (put : Put nodes app spot k a) {processor : ErProcessor} {node : ErServerNode}
    (there : a.nodes[spot k]? = some node) (more : k < app.processors.length) :
    Put nodes app spot (k + 1) (ResourceDispatch.place a k processor (spot k) node) :=
  put.next there (placeResources_id node processor.resources (-1)) more rfl

theorem Put.assigned (put : Put nodes app spot app.processors.length a) (setting : Setting)
    (inside : ∀ i < app.processors.length, spot i < nodes.length) :
    Assigned nodes app (finish setting (a,none)) spot where
  normal := rfl
  inside := inside
  dispatch := by
    refine ⟨_,congrArg (· ++ _) put.dispatch,?_⟩
    have length : a.nodes.length = nodes.length := by simpa using congrArg List.length put.ids
    have kept : ∀ place ∈ setting.placeOrder a.places, place.2 < a.nodes.length := by
      intro place member
      rw [(setting.placed _).mem_iff,put.places] at member
      obtain ⟨i,less,rfl⟩ := List.mem_map.mp member
      rw [length]
      exact inside i (List.mem_range.mp less)
    have listed : ((setting.placeOrder a.places).filterMap fun x => a.nodes[x.2]?.map fun node => (x.1,node)).map
        (fun pair => (pair.1,some pair.2.id)) =
          (setting.placeOrder a.places).map fun x => (x.1,nodes[x.2]?.map ErServerNode.id) := by
      rw [List.map_filterMap,← List.filterMap_eq_map]
      refine List.filterMap_congr fun place member => ?_
      have within := kept place member
      simp only [List.getElem?_eq_getElem within,Option.map_some,Function.comp_apply,← ids_get put.ids]
    refine (List.Perm.of_eq listed).trans ?_
    have listing := (setting.placed a.places).map fun x => (x.1,nodes[x.2]?.map ErServerNode.id)
    rw [put.places,List.map_map] at listing
    rw [put.places]
    exact listing
  served := put.served

theorem put_of_chosen (chosen : ∀ k < app.processors.length, choose k = some (spot k))
    (inside : ∀ k < app.processors.length, spot k < nodes.length) :
    (placeAll choose app.processors 0 (begin nodes app)).2 = none ∧
      Put nodes app spot app.processors.length (placeAll choose app.processors 0 (begin nodes app)).1 := by
  have normal : (placeAll choose app.processors 0 (begin nodes app)).2 = none :=
    (placeAll_normal_iff ..).mpr fun k less => ⟨spot k,by rw [Nat.zero_add]; exact chosen k less,inside k less⟩
  have round (k : ℕ) (processor : ErProcessor) (i : ℕ) (node : ErServerNode) (a : Attempt) (put : Put nodes app spot k a)
      (at_k : app.processors[k]? = some processor) (here : choose k = some i) (there : a.nodes[i]? = some node) :
      Put nodes app spot (k + 1) (place a k processor i node) := by
    have more := (List.getElem?_eq_some_iff.mp at_k).1
    obtain rfl := Option.some.inj (here.symm.trans (chosen k more))
    exact put.place there more
  have put := placeAll_invariant round app.processors 0 rfl (.begin nodes app spot) normal
  rw [Nat.zero_add] at put
  exact ⟨normal,put⟩

theorem assigned_of_chosen (setting : Setting) (chosen : ∀ k < app.processors.length, choose k = some (spot k))
    (inside : ∀ k < app.processors.length, spot k < nodes.length) :
    Assigned nodes app (finish setting (placeAll choose app.processors 0 (begin nodes app))) spot := by
  obtain ⟨normal,put⟩ := put_of_chosen chosen inside
  have split : placeAll choose app.processors 0 (begin nodes app) = (_,none) := Prod.ext rfl normal
  rw [split]
  exact put.assigned setting inside

end

theorem placed_id (places : List (ProcessorRef × ℕ)) : (id places).Perm places := .refl _

/-- One processor per node, and hash maps in the order in which they have been filled. -/
def inOrder : Setting := ⟨1,id,id,placed_id⟩

/-- A node with `total` cores. -/
def coreNode (id total : Int) : ErServerNode :=
  ⟨id,"host",[{ resourceType := Dict.VCPU_CORE, total := total, allocated := 0, preAllocated := 0 }]⟩

/-- A request for one core for each of `n` processors. -/
def coreRequest (n : ℕ) (strategy : String) : ResourceApplication where
  sessionId := "session"
  processors := List.replicate n { processorType := "egg_pair", status := "NEW"
                                   resources := [{ resourceType := Dict.VCPU_CORE, allocated := 1 }] }
  dispatchStrategy := some strategy

end Eggroll.ResourceDispatch
