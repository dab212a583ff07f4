import Mathlib.Data.List.Forall2
import Eggroll.FixDispatch
import Eggroll.RandomDispatch

/-! What an attempt to place the requested processors leaves in them, and what the next
attempt overwrites of it: all but the index in the extention of a GPU resource, which is
overwritten on a node that has GPUs and kept on one that has none. -/
namespace Eggroll.ResourceDispatch
open Library ResourceApplication

/-- The resource as requested, or a GPU with an index from an attempt. -/
def LeftResource (requested left : ErResource) : Prop :=
  left = requested ∨ requested.resourceType = Dict.VGPU_CORE ∧
    ∃ extention, left = { requested with extention := extention }

def hasGpu (node : ErServerNode) : Bool := node.resources.any fun r => r.resourceType = Dict.VGPU_CORE

theorem LeftResource.type {requested left : ErResource} (same : LeftResource requested left) :
    left.resourceType = requested.resourceType := by
  rcases same with rfl | ⟨-,extention,rfl⟩ <;> rfl

private theorem takeGpu_none {node : ErServerNode} {r : ErResource} : takeGpu node r = none ↔ hasGpu node = false := by
  rw [takeGpu,hasGpu]
  split
  · rename_i none_there
    refine iff_of_true rfl ?_
    simpa [List.findIdx?_eq_none_iff] using none_there
  · rename_i i found
    obtain ⟨within,type,-⟩ := List.findIdx?_eq_some_iff_getElem.mp found
    rw [List.getElem?_eq_getElem within]
    refine iff_of_false (by simp) fun none_there => ?_
    rw [List.any_eq_false] at none_there
    exact none_there _ (List.getElem_mem within) type

private theorem takeGpu_left (node : ErServerNode) {requested left : ErResource} (same : LeftResource requested left) :
    takeGpu node left = takeGpu node requested := by
  rcases same with rfl | ⟨-,extention,rfl⟩
  · rfl
  · rfl

private theorem takeGpu_rows {node node' : ErServerNode} {r r' : ErResource} {next : Int}
    (taken : takeGpu node r = some (node',r',next)) : hasGpu node' = true := by
  rw [takeGpu] at taken
  split at taken
  · cases taken
  · rename_i i found
    obtain ⟨within,type,-⟩ := List.findIdx?_eq_some_iff_getElem.mp found
    rw [List.getElem?_eq_getElem within,Option.map_some] at taken
    cases taken
    exact List.any_eq_true.mpr ⟨_,List.mem_set within _,type⟩

private theorem placeResources_rows (node : ErServerNode) (resources : List ErResource) (next : Int) :
    hasGpu (placeResources node resources next).1 = hasGpu node := by
  induction resources generalizing node next with
  | nil => rfl
  | cons r rest ih =>
    rw [placeResources]
    split
    · rename_i node' r' next' taken
      split at taken
      · refine (ih node' next').trans ((takeGpu_rows taken).trans ?_)
        by_contra none_there
        rw [takeGpu_none.mpr (by simpa using Ne.symm none_there)] at taken
        cases taken
      · cases taken
    · exact ih node next

private theorem placeResources_left (node : ErServerNode) {requested left : List ErResource}
    (same : List.Forall₂ LeftResource requested left) (next : Int) :
    (placeResources node left next).1 = (placeResources node requested next).1 ∧
      (placeResources node left next).2.2 = (placeResources node requested next).2.2 ∧
      List.Forall₂ LeftResource requested (placeResources node left next).2.1 ∧
      (left = requested ∨ hasGpu node = true →
        (placeResources node left next).2.1 = (placeResources node requested next).2.1) := by
  induction same generalizing node next with
  | nil => exact ⟨rfl,rfl,.nil,fun _ => rfl⟩
  | @cons r₀ r rest₀ rest first others ih =>
    rw [placeResources,placeResources,first.type,takeGpu_left node first]
    by_cases type : r₀.resourceType = Dict.VGPU_CORE
    · rw [if_pos type]
      cases taken : takeGpu node r₀ with
      | none =>
        obtain ⟨nodes,indices,kept,equal⟩ := ih node next
        refine ⟨nodes,indices,.cons first kept,fun fresh => ?_⟩
        rcases fresh with same | gpus
        · obtain ⟨rfl,rfl⟩ := List.cons.inj same
          rfl
        · rw [takeGpu_none.mp taken] at gpus
          cases gpus
      | some result =>
        obtain ⟨node',r',next'⟩ := result
        obtain ⟨nodes,indices,kept,equal⟩ := ih node' next'
        refine ⟨nodes,indices,.cons ?_ kept,fun _ => congrArg (r' :: ·) (equal (.inr (takeGpu_rows taken)))⟩
        rw [takeGpu] at taken
        split at taken
        · cases taken
        · obtain ⟨gpu,-,made⟩ := Option.map_eq_some_iff.mp taken
          cases made
          exact .inr ⟨type,_,rfl⟩
    · rw [if_neg type]
      obtain ⟨nodes,indices,kept,equal⟩ := ih node next
      have same : r = r₀ := first.resolve_right fun gpu => type gpu.1
      refine ⟨nodes,indices,.cons first kept,fun fresh => ?_⟩
      rw [same]
      exact congrArg (r₀ :: ·) (equal (fresh.imp_left fun here => (List.cons.inj here).2))

/-- The processor as requested, but for its node, its endpoint and what an attempt with GPUs
has written into its resources and options. -/
structure LeftProcessor (strategy : String) (requested left : ErProcessor) : Prop where
  rest : left = { requested with
    serverNodeId := left.serverNodeId, commandEndpoint := left.commandEndpoint, resources := left.resources
    options := left.options }
  resources : List.Forall₂ LeftResource requested.resources left.resources
  options : left.options = requested.options ∨
    ∃ text, left.options = (requested.putOption "cudaVisibleDevices" text).options
  random : strategy = Dict.RANDOM → left.resources = requested.resources ∧ left.options = requested.options

theorem LeftProcessor.refl (strategy : String) (p : ErProcessor) : LeftProcessor strategy p p :=
  ⟨rfl,List.forall₂_same.mpr fun _ _ => .inl rfl,.inl rfl,fun _ => ⟨rfl,rfl⟩⟩

def placedOn (p : ErProcessor) (node : ErServerNode) : ErProcessor :=
  { p with
    serverNodeId := some node.id
    commandEndpoint := some (node.host,0)
    resources := (placeResources node p.resources (-1)).2.1 }.putOption "cudaVisibleDevices"
      (toString (placeResources node p.resources (-1)).2.2)

private theorem putOption_twice (p : ErProcessor) (key first second : String) :
    ((p.putOption key first).putOption key second) = p.putOption key second := by
  simp [ErProcessor.putOption]

section
variable {strategy : String} {requested left : ErProcessor}

private theorem LeftProcessor.placedOn (same : LeftProcessor strategy requested left) (gpus : strategy ≠ Dict.RANDOM)
    (node : ErServerNode) : LeftProcessor strategy requested (placedOn left node) ∧
      (left.resources = requested.resources ∨ hasGpu node = true →
        ResourceDispatch.placedOn left node = ResourceDispatch.placedOn requested node) := by
  obtain ⟨-,indices,kept,equal⟩ := placeResources_left node same.resources (-1)
  have options (text : String) : (left.putOption "cudaVisibleDevices" text).options =
      (requested.putOption "cudaVisibleDevices" text).options := by
    rcases same.options with plain | ⟨before,put⟩
    · simp [ErProcessor.putOption,plain]
    · have twice := congrArg ErProcessor.options (putOption_twice requested "cudaVisibleDevices" before text)
      rw [← twice]
      simp only [ErProcessor.putOption] at put ⊢
      rw [put]
  refine ⟨⟨?_,kept,.inr ⟨_,options _⟩,fun random => absurd random gpus⟩,fun fresh => ?_⟩
  · rw [ResourceDispatch.placedOn,same.rest]
    rfl
  · have plain : left.processorType = requested.processorType ∧ left.status = requested.status := by
      rw [same.rest]
      exact ⟨rfl,rfl⟩
    have put := options (toString (placeResources node requested.resources (-1)).2.2)
    simp only [ResourceDispatch.placedOn,ErProcessor.putOption] at put ⊢
    rw [plain.1,plain.2,equal fresh,indices,put]

end

/-- The application as requested, but for what attempts leave in its processors, those made, its
latch and its counters. -/
structure LeftApp (strategy : String) (requested left : ResourceApplication) : Prop where
  rest : left = { requested with
    processors := left.processors, resourceExhaustedStrategy := left.resourceExhaustedStrategy
    latch := left.latch, waitingCount := left.waitingCount, status := left.status, created := left.created }
  processors : List.Forall₂ (LeftProcessor strategy) requested.processors left.processors

theorem LeftApp.refl (strategy : String) (app : ResourceApplication) : LeftApp strategy app app :=
  ⟨rfl,List.forall₂_same.mpr fun p _ => .refl strategy p⟩

/-- Two attempts side by side, on an application as requested and on what is left of it: the
first `k` processors are the same where `fresh` says so. -/
structure Mirror (strategy : String) (all : List ErServerNode) (app₀ : ResourceApplication) (fresh : ℕ → Prop)
    (k : ℕ) (a₀ a : Attempt) : Prop where
  nodes : a.nodes = a₀.nodes
  places : a.places = a₀.places
  requested : ∀ place ∈ a₀.places, ∃ i, place.1 = .requested i
  rows : ∀ j : ℕ, a₀.nodes[j]?.map hasGpu = all[j]?.map hasGpu
  count : a₀.app.processors.length = app₀.processors.length
  left : LeftApp strategy app₀ a.app
  same : ∀ i < k, fresh i → a.app.processors[i]? = a₀.app.processors[i]?
  dispatch : a₀.app.resourceDispatch = app₀.resourceDispatch

/-- The place of the processor's node, where the strategy looks for one with GPUs. -/
def chosen (nodes : List ErServerNode) (app : ResourceApplication) (k : ℕ) : Option ℕ :=
  if app.dispatchStrategy = some Dict.REMAIN_MOST_FIRST then remainMostFirst nodes app k
  else if app.dispatchStrategy = some Dict.SINGLE_NODE_FIRST then (sortNodeList nodes app)[k]?
  else none

def Overwritten (choose : ℕ → Option ℕ) (nodes : List ErServerNode) (app₀ app : ResourceApplication) (i : ℕ) : Prop :=
  app.processors[i]?.map ErProcessor.resources = app₀.processors[i]?.map ErProcessor.resources ∨
    ((choose i).bind (nodes[·]?)).map hasGpu = some true

instance (choose : ℕ → Option ℕ) (nodes : List ErServerNode) (app₀ app : ResourceApplication) (i : ℕ) :
    Decidable (Overwritten choose nodes app₀ app i) := inferInstanceAs (Decidable (_ ∨ _))

/-- There is a node with resources for every processor. -/
def complete (nodes : List ErServerNode) (app : ResourceApplication) : Bool :=
  nodes.all (fun node => !node.resources.isEmpty) &&
    (List.range app.processors.length).all fun i => ((chosen nodes app i).bind (nodes[·]?)).isSome

/-- No processor that holds an index of an earlier attempt goes to a node without GPUs. -/
def Clean (nodes : List ErServerNode) (app₀ app : ResourceApplication) : Prop :=
  complete nodes app = true → ∀ i < app.processors.length, Overwritten (chosen nodes app) nodes app₀ app i

instance (nodes : List ErServerNode) (app₀ app : ResourceApplication) : Decidable (Clean nodes app₀ app) :=
  inferInstanceAs (Decidable (_ → _))

section
variable {strategy : String} {nodes : List ErServerNode} {app₀ app : ResourceApplication} {fresh : ℕ → Prop} {k : ℕ}
  {a₀ a : Attempt}

theorem Mirror.begin (nodes : List ErServerNode) (left : LeftApp strategy app₀ app) (fresh : ℕ → Prop) :
    Mirror strategy nodes app₀ fresh 0 (begin nodes app₀) (begin nodes app) :=
  ⟨rfl,rfl,fun _ member => by simp [ResourceDispatch.begin] at member,fun _ => rfl,rfl,left,
    fun _ less => absurd less (Nat.not_lt_zero _),rfl⟩

private theorem set_left {all₀ all : List ErProcessor} (same : List.Forall₂ (LeftProcessor strategy) all₀ all)
    {p₀ p : ErProcessor} {k : ℕ} (at_k : all₀[k]? = some p₀) (left : LeftProcessor strategy p₀ p) :
    List.Forall₂ (LeftProcessor strategy) all₀ (all.set k p) := by
  induction same generalizing k with
  | nil => cases at_k
  | cons first others ih =>
    cases k with
    | zero =>
      cases at_k
      exact .cons left others
    | succ k => exact .cons first (ih at_k)

theorem Mirror.next (mirror : Mirror strategy nodes app₀ fresh k a₀ a) {i : ℕ} {node node' : ErServerNode}
    {p₀ placed₀ placed : ErProcessor} (at_k : app₀.processors[k]? = some p₀) (there : a₀.nodes[i]? = some node)
    (rows : hasGpu node' = hasGpu node) (left : LeftProcessor strategy p₀ placed) (same : fresh k → placed = placed₀) :
    Mirror strategy nodes app₀ fresh (k + 1)
      ⟨a₀.nodes.set i node',{ a₀.app with processors := a₀.app.processors.set k placed₀ },a₀.places ++ [(.requested k,i)]⟩
      ⟨a.nodes.set i node',{ a.app with processors := a.app.processors.set k placed },a.places ++ [(.requested k,i)]⟩ where
  nodes := congrArg (fun all => all.set i node') mirror.nodes
  places := congrArg (· ++ _) mirror.places
  requested := by
    intro place member
    rcases List.mem_append.mp member with before | now
    · exact mirror.requested place before
    · exact ⟨k,congrArg Prod.fst (List.mem_singleton.mp now)⟩
  rows := by
    intro j
    by_cases here : i = j
    · subst here
      rw [List.getElem?_set_self (List.getElem?_eq_some_iff.mp there).1,← mirror.rows,there,Option.map_some,rows,
        Option.map_some]
    · rw [List.getElem?_set_ne here,mirror.rows]
  count := by simpa using mirror.count
  left := ⟨by rw [mirror.left.rest],set_left mirror.left.processors at_k left⟩
  same := by
    intro j less new
    by_cases here : k = j
    · subst here
      have within : k < app₀.processors.length := (List.getElem?_eq_some_iff.mp at_k).1
      have length := mirror.left.processors.length_eq
      rw [same new,List.getElem?_set_self (by omega),List.getElem?_set_self (by rw [mirror.count]; exact within)]
    · rw [List.getElem?_set_ne here,List.getElem?_set_ne here]
      exact mirror.same j (by omega) new
  dispatch := mirror.dispatch

theorem Mirror.put {choose : ℕ → Option ℕ}
    (mirror : Mirror strategy nodes app₀ (Overwritten choose nodes app₀ app) k a₀ a) (gpus : strategy ≠ Dict.RANDOM)
    {i : ℕ} {node : ErServerNode} {p₀ p : ErProcessor} (at_k₀ : app₀.processors[k]? = some p₀)
    (at_k : app.processors[k]? = some p) (left : LeftProcessor strategy p₀ p) (here : choose k = some i)
    (there : a₀.nodes[i]? = some node) :
    Mirror strategy nodes app₀ (Overwritten choose nodes app₀ app) (k + 1) (place a₀ k p₀ i node)
      (place a k p i node) := by
  obtain ⟨left',same⟩ := left.placedOn gpus node
  have node_eq : (placeResources node p.resources (-1)).1 = (placeResources node p₀.resources (-1)).1 :=
    (placeResources_left node left.resources (-1)).1
  have fresh (new : Overwritten choose nodes app₀ app k) : placedOn p node = placedOn p₀ node := by
    rcases new with kept | gpu
    · rw [at_k,at_k₀] at kept
      exact same (.inl (Option.some.inj kept))
    · rw [here,Option.bind_some,← mirror.rows,there] at gpu
      exact same (.inr (Option.some.inj gpu))
  have shape : place a k p i node = ⟨a.nodes.set i (placeResources node p.resources (-1)).1,
    { a.app with processors := a.app.processors.set k (placedOn p node) },a.places ++ [(.requested k,i)]⟩ := rfl
  rw [shape,node_eq]
  exact mirror.next at_k₀ there (placeResources_rows node p₀.resources (-1)) left' fresh

/-- One attempt on what is left goes as far as it would have gone on what was requested. -/
structure Mirrored (strategy : String) (nodes : List ErServerNode) (app₀ : ResourceApplication) (fresh : ℕ → Prop)
    (count : ℕ) (after₀ after : Attempt × Option JavaException) : Prop where
  outcome : after.2 = after₀.2
  mirror : ∃ done, Mirror strategy nodes app₀ fresh done after₀.1 after.1 ∧ (after₀.2 = none → done = count)

private theorem placeAll_mirrored {choose : ℕ → Option ℕ} (gpus : strategy ≠ Dict.RANDOM) {rest₀ rest : List ErProcessor}
    (others : List.Forall₂ (LeftProcessor strategy) rest₀ rest) (k : ℕ) (these₀ : app₀.processors.drop k = rest₀)
    (these : app.processors.drop k = rest)
    (mirror : Mirror strategy nodes app₀ (Overwritten choose nodes app₀ app) k a₀ a) :
    Mirrored strategy nodes app₀ (Overwritten choose nodes app₀ app) (k + rest₀.length)
      (placeAll choose rest₀ k a₀) (placeAll choose rest k a) := by
  induction others generalizing k a₀ a with
  | nil => exact ⟨rfl,k,mirror,fun _ => rfl⟩
  | @cons p₀ p rest₀ rest first others ih =>
    obtain ⟨at_k₀,later₀⟩ := of_drop_eq_cons these₀
    obtain ⟨at_k,later⟩ := of_drop_eq_cons these
    rw [placeAll,placeAll,mirror.nodes]
    split
    · exact ⟨rfl,k,mirror,fun threw => by simp at threw⟩
    · rename_i i node chosen
      obtain ⟨here,there⟩ := chosen_iff.mp chosen
      have both := ih (k + 1) later₀ later (mirror.put gpus at_k₀ at_k first here there)
      rwa [List.length_cons,Nat.add_comm rest₀.length,← Nat.add_assoc]

private theorem randomPlace_mirrored (random : strategy = Dict.RANDOM) {rest₀ rest : List ErProcessor}
    (others : List.Forall₂ (LeftProcessor strategy) rest₀ rest) (shuffled : List ℕ) (k : ℕ)
    (these₀ : app₀.processors.drop k = rest₀) (mirror : Mirror strategy nodes app₀ (fun _ => True) k a₀ a) :
    Mirrored strategy nodes app₀ (fun _ => True) (k + rest₀.length)
      (randomPlace shuffled rest₀ k a₀) (randomPlace shuffled rest k a) := by
  induction others generalizing shuffled k a₀ a with
  | nil => cases shuffled <;> exact ⟨rfl,k,mirror,fun _ => rfl⟩
  | @cons p₀ p rest₀ rest first others ih =>
    obtain ⟨at_k₀,later₀⟩ := of_drop_eq_cons these₀
    cases shuffled with
    | nil => exact ⟨rfl,k,mirror,fun threw => by simp [randomPlace] at threw⟩
    | cons i shuffled =>
      rw [randomPlace,randomPlace,mirror.nodes]
      split
      · exact ⟨rfl,k,mirror,fun threw => by simp at threw⟩
      · rename_i node there
        let moved (p : ErProcessor) : ErProcessor :=
          { p with serverNodeId := some node.id, commandEndpoint := some (node.host,0) }
        obtain ⟨resources,options⟩ := first.random random
        have same : moved p = moved p₀ := by
          rw [first.rest,resources,options]
        have left : LeftProcessor strategy p₀ (moved p) := by
          rw [same]
          exact ⟨rfl,List.forall₂_same.mpr fun _ _ => .inl rfl,.inl rfl,fun _ => ⟨rfl,rfl⟩⟩
        have next := mirror.next at_k₀ there rfl left fun _ => same
        have nodes_eq : a₀.nodes.set i node = a₀.nodes := set_same there
        rw [mirror.nodes,nodes_eq] at next
        have both := ih shuffled (k + 1) later₀ next
        rwa [List.length_cons,Nat.add_comm rest₀.length,← Nat.add_assoc]

/-- The processors of the dispatch as they stand, with their nodes, endpoints and indices. -/
def dispatched (app : ResourceApplication) : List (Option ErProcessor) :=
  app.resourceDispatch.map fun pair => app.object pair.1

/-- What a strategy gives for what is left, beside what it gives for what was requested: the
same if this is `clean`, and else no more than has been left before. -/
structure Retried (strategy : String) (app₀ : ResourceApplication) (clean : Prop) (alone again : Result) :
    Prop where
  outcome : again.2 = alone.2
  left : LeftApp strategy app₀ { again.1 with resourceDispatch := app₀.resourceDispatch }
  same : alone.2 = none → clean → (dispatched again.1).Perm (dispatched alone.1)

private theorem Retried.of_clean {clean clean' : Prop} {alone again : Result}
    (retried : Retried strategy app₀ clean alone again) (stronger : alone.2 = none → clean' → clean) : Retried strategy app₀ clean' alone again :=
  ⟨retried.outcome,retried.left,fun normal holds => retried.same normal (stronger normal holds)⟩

theorem Mirrored.finish (setting : Setting) (idle : app₀.resourceDispatch = [])
    {after₀ after : Attempt × Option JavaException} (mirrored : Mirrored strategy nodes app₀ fresh app₀.processors.length after₀ after) :
    Retried strategy app₀ (∀ i < app₀.processors.length, fresh i) (finish setting after₀) (finish setting after) := by
  obtain ⟨outcome,done,mirror,all⟩ := mirrored
  obtain ⟨a₀,e₀⟩ := after₀
  obtain ⟨a,e⟩ := after
  dsimp only at outcome mirror all
  subst outcome
  cases e with
  | some e =>
    exact ⟨rfl,⟨by rw [ResourceDispatch.finish,mirror.left.rest],mirror.left.processors⟩,
      fun threw => by simp [ResourceDispatch.finish] at threw⟩
  | none =>
    refine ⟨rfl,⟨by rw [ResourceDispatch.finish,collect,mirror.left.rest],mirror.left.processors⟩,fun _ fresh => ?_⟩
    have processors : a.app.processors = a₀.app.processors := by
      obtain rfl := all rfl
      refine List.ext_getElem? fun i => ?_
      by_cases within : i < app₀.processors.length
      · exact mirror.same i within (fresh i within)
      · have length := mirror.left.processors.length_eq
        have count := mirror.count
        rw [List.getElem?_eq_none (by omega),List.getElem?_eq_none (by omega)]
    have before : a.app.resourceDispatch = a₀.app.resourceDispatch := by
      rw [mirror.left.rest,mirror.dispatch]
    refine List.Perm.of_eq ?_
    simp only [dispatched,ResourceDispatch.finish,collect,before,mirror.dispatch,idle,mirror.places,mirror.nodes,
      List.nil_append]
    refine List.map_congr_left fun pair member => ?_
    obtain ⟨place,there,found⟩ := List.mem_filterMap.mp member
    obtain ⟨node,-,rfl⟩ := Option.map_eq_some_iff.mp found
    obtain ⟨i,requested⟩ := mirror.requested place ((setting.placed _).mem_iff.mp there)
    rw [requested,object,object,processors]

private theorem sortNodes_left (left : LeftApp strategy app₀ app) (sign : Int) (tupes : List ℕ) :
    sortNodes nodes app sign tupes = sortNodes nodes app₀ sign tupes := by
  rw [left.rest]
  rfl

private theorem sortNodeList_left (left : LeftApp strategy app₀ app) : sortNodeList nodes app = sortNodeList nodes app₀ := by
  rw [left.rest]
  rfl

private theorem remainMostFirst_left (left : LeftApp strategy app₀ app) (k : ℕ) :
    remainMostFirst nodes app k = remainMostFirst nodes app₀ k := by
  have empty {p₀ p : ErProcessor} (same : LeftProcessor strategy p₀ p) :
      (!p.resources.isEmpty) = !p₀.resources.isEmpty := by
    have resources := same.resources
    generalize p.resources = rs at resources
    generalize p₀.resources = rs₀ at resources
    cases resources <;> rfl
  have started : (app.processors.take k).any (fun p => !p.resources.isEmpty) =
      (app₀.processors.take k).any fun p => !p.resources.isEmpty := by
    have processors := left.processors
    generalize app.processors = all at processors
    generalize app₀.processors = all₀ at processors
    induction processors generalizing k with
    | nil => rfl
    | cons first others ih =>
      cases k with
      | zero => rfl
      | succ k => rw [List.take_succ_cons,List.take_succ_cons,List.any_cons,List.any_cons,empty first,ih]
  rw [remainMostFirst,remainMostFirst,started,sortNodes_left left,sortNodes_left left]

theorem LeftApp.dispatchStrategy (left : LeftApp strategy app₀ app) : app.dispatchStrategy = app₀.dispatchStrategy := by
  rw [left.rest]

private theorem placeAll_retried (setting : Setting) (idle : app₀.resourceDispatch = []) (left : LeftApp strategy app₀ app)
    (gpus : strategy ≠ Dict.RANDOM) (rows : ¬ (nodes.any fun node => node.resources.isEmpty) = true)
    {choose : ℕ → Option ℕ} (same : chosen nodes app = choose) :
    Retried strategy app₀ (Clean nodes app₀ app) (finish setting (placeAll choose app₀.processors 0 (begin nodes app₀)))
      (finish setting (placeAll choose app.processors 0 (begin nodes app))) := by
  have both := placeAll_mirrored gpus left.processors 0 rfl rfl (.begin nodes left (Overwritten choose nodes app₀ app))
  rw [Nat.zero_add] at both
  refine (both.finish setting idle).of_clean fun normal clean i less => ?_
  rw [left.processors.length_eq] at less
  rw [← same]
  refine clean ?_ i less
  have all := (placeAll_normal_iff ..).mp (finish_normal_iff.mp normal)
  rw [left.processors.length_eq] at all
  simp only [Nat.zero_add] at all
  refine Bool.and_eq_true_iff.mpr ⟨by simpa [List.any_eq_true] using rows,List.all_eq_true.mpr fun k member => ?_⟩
  obtain ⟨i,here,within⟩ := all k (List.mem_range.mp member)
  have there : nodes[i]? = some nodes[i] := List.getElem?_eq_getElem within
  rw [same,here,Option.bind_some,there]
  rfl

private theorem placing_retried (setting : Setting) (order : List ℕ) (nodes : List ErServerNode)
    (idle : app₀.resourceDispatch = []) (known : app₀.dispatchStrategy = some strategy) (places : strategy ∈ placing)
    (left : LeftApp strategy app₀ app) :
    Retried strategy app₀ (Clean nodes app₀ app) (dispatch setting order nodes app₀)
      (dispatch setting order nodes app) := by
  have known' : app.dispatchStrategy = some strategy := left.dispatchStrategy.trans known
  have threw (e : JavaException) : Retried strategy app₀ (Clean nodes app₀ app) (app₀,some e) (app,some e) :=
    ⟨rfl,⟨by rw [left.rest],left.processors⟩,fun normal => by simp at normal⟩
  simp only [placing,List.mem_cons,List.not_mem_nil,or_false] at places
  rw [dispatch,dispatch,known,known']
  dsimp only
  rcases places with most | random | single
  · have choose : chosen nodes app = remainMostFirst nodes app₀ := by
      funext k
      rw [chosen,known',if_pos (congrArg some most),remainMostFirst_left left]
    rw [if_pos most,if_pos most,remainMostFirstDispatch,remainMostFirstDispatch,funext (remainMostFirst_left left)]
    split
    · exact threw _
    · rename_i rows
      exact placeAll_retried setting idle left (by rw [most]; decide) rows choose
  · have not_most : strategy ≠ Dict.REMAIN_MOST_FIRST := by
      rw [random]
      decide
    rw [if_neg not_most,if_neg not_most,if_pos random,if_pos random,randomDispatch,randomDispatch]
    have both := randomPlace_mirrored random left.processors order 0 rfl (.begin nodes left fun _ => True)
    rw [Nat.zero_add] at both
    exact (both.finish setting idle).of_clean fun _ _ _ _ => trivial
  · have not_most : strategy ≠ Dict.REMAIN_MOST_FIRST := by
      rw [single]
      decide
    have not_random : strategy ≠ Dict.RANDOM := by
      rw [single]
      decide
    have not_fix : strategy ≠ Dict.FIX := by
      rw [single]
      decide
    have choose : chosen nodes app = fun k => (sortNodeList nodes app₀)[k]? := by
      funext k
      rw [chosen,known',if_neg (by simpa using not_most),if_pos (congrArg some single),sortNodeList_left left]
    rw [if_neg not_most,if_neg not_most,if_neg not_random,if_neg not_random,if_neg not_fix,if_neg not_fix,
      if_pos single,if_pos single,singleNodeFirstDispatch,singleNodeFirstDispatch,sortNodeList_left left]
    split
    · exact threw _
    · rename_i rows
      exact placeAll_retried setting idle left not_random rows choose

end

/-- An attempt that has made these processors for an application, each for the node at a place. -/
def havingMade (nodes : List ErServerNode) (app : ResourceApplication) (list : List (ErProcessor × ℕ)) : Attempt where
  nodes := nodes
  app := { app with created := app.created ++ list.map Prod.fst }
  places := (list.zipIdx app.created.length).map fun entry => (.created entry.2,entry.1.2)

def Housed (nodes : List ErServerNode) (list : List (ErProcessor × ℕ)) : Prop :=
  ∀ entry ∈ list, ∃ node, nodes[entry.2]? = some node ∧ entry.1.serverNodeId = some node.id

section
variable {nodes : List ErServerNode} {app : ResourceApplication} {list : List (ErProcessor × ℕ)}

private theorem havingMade_add (p : ErProcessor) (i : ℕ) :
    (havingMade nodes app list).add p i = havingMade nodes app (list ++ [(p,i)]) := by
  simp [havingMade,Attempt.add,List.zipIdx_append]

private theorem havingMade_nil : havingMade nodes app [] = begin nodes app := by
  simp [havingMade,begin]

private theorem havingMade_used (node : ErServerNode) :
    ((havingMade nodes app list).places.any fun placed => (havingMade nodes app list).nodes[placed.2]? = some node) =
      list.any fun entry => nodes[entry.2]? = some node := by
  conv_rhs => rw [← List.zipIdx_map_fst app.created.length list,List.any_map]
  rw [havingMade,List.any_map]
  rfl

private theorem fixPlaceAll_havingMade (resourceType : String) (grid : List (String × ℕ)) (housed : Housed nodes list) :
    ∃ list' e, Housed nodes list' ∧
      ∀ app, fixPlaceAll resourceType grid (havingMade nodes app list) = (havingMade nodes app list',e) := by
  induction grid generalizing list with
  | nil => exact ⟨list,none,housed,fun _ => rfl⟩
  | cons cell rest ih =>
    obtain ⟨elem,i⟩ := cell
    cases there : nodes[i]? with
    | none => exact ⟨list,_,housed,fun app => by simp [fixPlaceAll,fixPlace,havingMade,there]; rfl⟩
    | some node =>
      by_cases used : (list.any fun entry => nodes[entry.2]? = some node) = true
      · refine ⟨list,some .unsupportedOperation,housed,fun app => ?_⟩
        have refused : fixPlace resourceType elem i (havingMade nodes app list) =
            (havingMade nodes app list,some .unsupportedOperation) := by
          have at_i : (havingMade nodes app list).nodes[i]? = some node := there
          simp only [fixPlace,at_i]
          rw [if_pos ((havingMade_used node).trans used)]
        rw [fixPlaceAll,refused]
      · let p := made resourceType elem node
        have housed' : Housed nodes (list ++ [(p,i)]) := by
          intro entry member
          rcases List.mem_append.mp member with before | now
          · exact housed entry before
          · rw [List.mem_singleton.mp now]
            exact ⟨node,there,rfl⟩
        obtain ⟨list',e,all,same⟩ := ih housed'
        refine ⟨list',e,all,fun app => ?_⟩
        have placed : fixPlace resourceType elem i (havingMade nodes app list) =
            (havingMade nodes app (list ++ [(p,i)]),none) := by
          have at_i : (havingMade nodes app list).nodes[i]? = some node := there
          simp only [fixPlace,at_i]
          rw [if_neg fun found => used ((havingMade_used node).symm.trans found),← havingMade_add]
          rfl
        rw [fixPlaceAll,placed]
        exact same app

def Attempt.Paired (a : Attempt) : Prop :=
  ∀ place ∈ a.places, ∃ p node, a.app.object place.1 = some p ∧ a.nodes[place.2]? = some node ∧
    p.serverNodeId = some node.id

private theorem havingMade_object (nodes : List ErServerNode) (app : ResourceApplication) (list : List (ErProcessor × ℕ))
    (k : ℕ) : (havingMade nodes app list).app.object (.created (app.created.length + k)) = list[k]?.map Prod.fst := by
  have looked : (havingMade nodes app list).app.object (.created (app.created.length + k)) =
      (app.created ++ list.map Prod.fst)[app.created.length + k]? := rfl
  rw [looked,List.getElem?_append_right (Nat.le_add_right ..),Nat.add_sub_cancel_left,List.getElem?_map]

private theorem havingMade_objects : ((havingMade nodes app list).places.map fun place =>
    (havingMade nodes app list).app.object place.1) = list.map fun entry => some entry.1 := by
  refine List.ext_getElem? fun k => ?_
  rw [List.getElem?_map,List.getElem?_map,havingMade,List.getElem?_map,List.getElem?_zipIdx]
  cases there : list[k]? with
  | none => rfl
  | some entry =>
    have object := havingMade_object nodes app list k
    rw [there] at object
    exact congrArg some object

private theorem havingMade_paired (housed : Housed nodes list) : (havingMade nodes app list).Paired := by
  intro place member
  obtain ⟨⟨entry,number⟩,there,rfl⟩ := List.mem_map.mp member
  obtain ⟨k,at_k⟩ := List.mem_iff_getElem?.mp there
  rw [List.getElem?_zipIdx] at at_k
  obtain ⟨entry',found,same⟩ := Option.map_eq_some_iff.mp at_k
  cases same
  obtain ⟨node,here,server⟩ := housed entry (List.mem_of_getElem? found)
  refine ⟨entry.1,node,?_,here,server⟩
  rw [havingMade_object,found]
  rfl

end

section
variable {strategy : String} {nodes : List ErServerNode} {app₀ app : ResourceApplication} {a : Attempt}

private theorem collect_dispatched (setting : Setting) (idle : a.app.resourceDispatch = []) (paired : a.Paired) :
    (dispatched (collect setting a)).Perm (a.places.map fun place => a.app.object place.1) := by
  have inside : ∀ place ∈ setting.placeOrder a.places, place.2 < a.nodes.length := by
    intro place member
    obtain ⟨p,node,-,there,-⟩ := paired place ((setting.placed _).mem_iff.mp member)
    exact (List.getElem?_eq_some_iff.mp there).1
  have listed : dispatched (collect setting a) = ((setting.placeOrder a.places).map Prod.fst).map a.app.object := by
    rw [← collected inside,List.map_map]
    simp only [dispatched,collect,idle,List.nil_append]
    rfl
  rw [listed,List.map_map]
  exact (setting.placed a.places).map _

private theorem fixDispatch_retried (setting : Setting) (idle : app₀.resourceDispatch = []) (left : LeftApp strategy app₀ app)
    (clean : Prop) :
    Retried strategy app₀ clean (fixDispatch setting nodes app₀) (fixDispatch setting nodes app) := by
  have options : app.options = app₀.options ∧ app.processorTypes = app₀.processorTypes := by
    rw [left.rest]
    exact ⟨rfl,rfl⟩
  have idle' : app.resourceDispatch = [] := by
    rw [left.rest]
    exact idle
  rw [fixDispatch,fixDispatch,options.1,options.2]
  split
  · exact ⟨rfl,⟨by rw [left.rest],left.processors⟩,fun normal => by simp at normal⟩
  · have none_made : Housed nodes [] := fun entry member => by cases member
    obtain ⟨list,e,housed,same⟩ := fixPlaceAll_havingMade (getOrDefault app₀.options "resourceType" Dict.VCPU_CORE) _
      none_made
    dsimp only
    rw [← havingMade_nil,← havingMade_nil,same,same]
    cases e with
    | some e => exact ⟨rfl,⟨by rw [finish,left.rest]; rfl,left.processors⟩,fun normal => by simp [finish] at normal⟩
    | none =>
      refine ⟨rfl,⟨by rw [finish,left.rest]; rfl,left.processors⟩,fun _ _ => ?_⟩
      have again := collect_dispatched (a := havingMade nodes app list) setting idle' (havingMade_paired housed)
      have alone := collect_dispatched (a := havingMade nodes app₀ list) setting idle (havingMade_paired housed)
      rw [havingMade_objects] at again alone
      exact again.trans alone.symm

/-- An attempt after others that have failed gives what it gives without them, but for the
indices that they have left and it does not overwrite. -/
theorem dispatch_retried (setting : Setting) (order : List ℕ) (nodes : List ErServerNode)
    (idle : app₀.resourceDispatch = []) (known : ∀ other, app₀.dispatchStrategy = some other → other = strategy)
    (left : LeftApp strategy app₀ app) : Retried strategy app₀ (Clean nodes app₀ app)
      (dispatch setting order nodes app₀) (dispatch setting order nodes app) := by
  cases asked : app₀.dispatchStrategy with
  | none =>
    rw [dispatch,dispatch,left.dispatchStrategy,asked]
    exact ⟨rfl,⟨by rw [left.rest],left.processors⟩,fun normal => by simp at normal⟩
  | some other =>
    obtain rfl := known other asked
    by_cases places : other ∈ placing
    · exact placing_retried setting order nodes idle asked places left
    simp only [placing,List.mem_cons,List.not_mem_nil,or_false,not_or] at places
    rw [dispatch,dispatch,asked,left.dispatchStrategy.trans asked]
    dsimp only
    rw [if_neg places.1,if_neg places.1,if_neg places.2.1,if_neg places.2.1,if_neg places.2.2,if_neg places.2.2]
    by_cases fix : other = Dict.FIX
    · rw [if_pos fix,if_pos fix]
      exact fixDispatch_retried setting idle left _
    · rw [if_neg fix,if_neg fix]
      refine ⟨rfl,⟨by rw [left.rest],left.processors⟩,fun _ _ => ?_⟩
      have idle' : app.resourceDispatch = [] := by
        rw [left.rest]
        exact idle
      rw [dispatched,dispatched,idle,idle']
      exact .nil

def Consistent (app : ResourceApplication) (pair : ProcessorRef × ErServerNode) : Prop :=
  ∃ p, app.object pair.1 = some p ∧ p.serverNodeId = some pair.2.id

private theorem finish_consistent (setting : Setting) {after : Attempt × Option JavaException}
    (idle : after.1.app.resourceDispatch = []) (paired : after.2 = none → after.1.Paired)
    (normal : (finish setting after).2 = none) :
    ∀ pair ∈ (finish setting after).1.resourceDispatch, Consistent (finish setting after).1 pair := by
  obtain ⟨a,_ | e⟩ := after
  · intro pair member
    dsimp only at idle
    simp only [finish,collect,idle,List.nil_append] at member
    obtain ⟨place,there,found⟩ := List.mem_filterMap.mp member
    obtain ⟨node,at_place,rfl⟩ := Option.map_eq_some_iff.mp found
    obtain ⟨p,node',object,here,server⟩ := paired rfl place ((setting.placed _).mem_iff.mp there)
    obtain rfl := Option.some.inj (at_place.symm.trans here)
    exact ⟨p,object,server⟩
  · cases normal

private theorem Put.paired {spot : ℕ → ℕ} {k : ℕ} (put : Put nodes app spot k a) (sound : a.Sound nodes app (firstRequested k)) :
    a.Paired := by
  intro place member
  rw [put.places] at member
  obtain ⟨i,less,rfl⟩ := List.mem_map.mp member
  obtain ⟨p,at_i,server⟩ := put.served i (List.mem_range.mp less)
  obtain ⟨p',id,object,known,-⟩ := sound.served (.requested i) (List.mem_map_of_mem less)
  obtain rfl := Option.some.inj (at_i.symm.trans object)
  obtain ⟨node,there,same⟩ := Option.map_eq_some_iff.mp ((ids_get put.ids _).trans (server.symm.trans known))
  exact ⟨p,node,at_i,there,known.trans (congrArg some same.symm)⟩

private theorem placeAll_paired (choose : ℕ → Option ℕ) (normal : (placeAll choose app.processors 0 (begin nodes app)).2 = none) :
    (placeAll choose app.processors 0 (begin nodes app)).1.Paired := by
  have all := (placeAll_normal_iff ..).mp normal
  simp only [Nat.zero_add] at all
  let spot (k : ℕ) : ℕ := (choose k).getD 0
  have here : ∀ k < app.processors.length, choose k = some (spot k) := by
    intro k less
    obtain ⟨i,at_k,-⟩ := all k less
    simp only [spot,at_k,Option.getD_some]
  have inside : ∀ k < app.processors.length, spot k < nodes.length := by
    intro k less
    obtain ⟨i,at_k,within⟩ := all k less
    simp only [spot,at_k,Option.getD_some]
    exact within
  obtain ⟨-,put⟩ := put_of_chosen here inside
  obtain ⟨done,sound,complete⟩ := placeAll_sound choose app.processors 0 (.begin nodes app) (by omega)
  rw [complete normal,Nat.zero_add] at sound
  exact put.paired sound

private theorem randomPlace_paired (order : List ℕ) (normal : (randomPlace order app.processors 0 (begin nodes app)).2 = none) :
    (randomPlace order app.processors 0 (begin nodes app)).1.Paired := by
  have put := randomPlace_put app.processors order 0 rfl rfl (.begin nodes app (spotIn order)) normal
  obtain ⟨done,sound,complete⟩ := randomPlace_sound order app.processors 0 (.begin nodes app) (by omega)
  rw [Nat.zero_add] at put
  rw [complete normal,Nat.zero_add] at sound
  exact put.paired sound

private theorem fixDispatch_normal {setting : Setting} (normal : (fixDispatch setting nodes app).2 = none) :
    ∃ list, Housed nodes list ∧ fixDispatch setting nodes app = finish setting (havingMade nodes app list,none) := by
  unfold fixDispatch at normal ⊢
  split at normal
  · cases normal
  · dsimp only at normal ⊢
    have none_made : Housed nodes [] := fun entry member => by cases member
    obtain ⟨list,e,housed,same⟩ := fixPlaceAll_havingMade (getOrDefault app.options "resourceType" Dict.VCPU_CORE) _
      none_made
    rw [← havingMade_nil,same] at normal ⊢
    cases e with
    | some e => cases normal
    | none => exact ⟨list,housed,rfl⟩

private theorem fixDispatch_consistent (setting : Setting) (idle : app.resourceDispatch = [])
    (normal : (fixDispatch setting nodes app).2 = none) :
    ∀ pair ∈ (fixDispatch setting nodes app).1.resourceDispatch, Consistent (fixDispatch setting nodes app).1 pair := by
  obtain ⟨list,housed,same⟩ := fixDispatch_normal normal
  rw [same] at normal ⊢
  exact finish_consistent setting idle (fun _ => havingMade_paired housed) normal

theorem dispatch_consistent (setting : Setting) (order : List ℕ) (nodes : List ErServerNode)
    (idle : app.resourceDispatch = []) (normal : (dispatch setting order nodes app).2 = none) :
    ∀ pair ∈ (dispatch setting order nodes app).1.resourceDispatch,
      Consistent (dispatch setting order nodes app).1 pair := by
  have placed (choose : ℕ → Option ℕ)
      (normal : (finish setting (placeAll choose app.processors 0 (begin nodes app))).2 = none) :
      ∀ pair ∈ (finish setting (placeAll choose app.processors 0 (begin nodes app))).1.resourceDispatch,
        Consistent (finish setting (placeAll choose app.processors 0 (begin nodes app))).1 pair := by
    obtain ⟨done,sound,-⟩ := placeAll_sound choose app.processors 0 (.begin nodes app) (by omega)
    exact finish_consistent setting (sound.dispatch.trans idle) (placeAll_paired choose) normal
  unfold dispatch at normal ⊢
  split at normal
  · cases normal
  · split at normal
    · rename_i most
      rw [if_pos most]
      unfold remainMostFirstDispatch at normal ⊢
      split at normal
      · cases normal
      · rename_i rows
        rw [if_neg rows]
        exact placed _ normal
    · rename_i not_most
      rw [if_neg not_most]
      split at normal
      · rename_i random
        rw [if_pos random]
        obtain ⟨done,sound,-⟩ := randomPlace_sound order app.processors 0 (.begin nodes app) (by omega)
        exact finish_consistent setting (sound.dispatch.trans idle) (randomPlace_paired order) normal
      · rename_i not_random
        rw [if_neg not_random]
        split at normal
        · rename_i fix
          rw [if_pos fix]
          exact fixDispatch_consistent setting idle normal
        · rename_i not_fix
          rw [if_neg not_fix]
          split at normal
          · rename_i single
            rw [if_pos single]
            unfold singleNodeFirstDispatch at normal ⊢
            split at normal
            · cases normal
            · rename_i rows
              rw [if_neg rows]
              exact placed _ normal
          · rename_i other
            rw [if_neg other]
            intro pair member
            dsimp only at member
            rw [idle] at member
            cases member

theorem dispatch_unplaced (setting : Setting) (order : List ℕ) (nodes : List ErServerNode)
    (idle : app.resourceDispatch = []) (other : ∀ strategy ∈ placing, app.dispatchStrategy ≠ some strategy)
    (normal : (dispatch setting order nodes app).2 = none) (i : ℕ) :
    .requested i ∉ (dispatch setting order nodes app).1.resourceDispatch.map Prod.fst := by
  have not_most := other Dict.REMAIN_MOST_FIRST (by decide)
  have not_random := other Dict.RANDOM (by decide)
  have not_single := other Dict.SINGLE_NODE_FIRST (by decide)
  unfold dispatch at normal ⊢
  split at normal
  · cases normal
  · rename_i strategy known
    rw [known,ne_eq,Option.some_inj] at not_most not_random not_single
    rw [if_neg not_most,if_neg not_random] at normal ⊢
    split at normal
    · rename_i fix
      rw [if_pos fix]
      intro member
      obtain ⟨list,-,same⟩ := fixDispatch_normal normal
      rw [same] at member
      obtain ⟨pair,there,requested⟩ := List.mem_map.mp member
      simp only [finish,collect] at there
      rw [show (havingMade nodes app list).app.resourceDispatch = [] from idle,List.nil_append] at there
      obtain ⟨place,placed,found⟩ := List.mem_filterMap.mp there
      obtain ⟨node,-,rfl⟩ := Option.map_eq_some_iff.mp found
      obtain ⟨entry,-,rfl⟩ := List.mem_map.mp ((setting.placed _).mem_iff.mp placed)
      cases requested
    · rename_i not_fix
      rw [if_neg not_fix,if_neg not_single,idle]
      exact List.not_mem_nil

end

end Eggroll.ResourceDispatch
