import Mathlib.Data.List.Sort
import Eggroll.Library.Traverse
import Eggroll.ResourceApplication

/-! The dispatch strategies of `ClusterResourceManager.java`: which node each processor of
an application goes to. Node objects are their places in the list of server nodes; an
attempt that throws leaves what it has changed so far. -/
namespace Eggroll.ResourceDispatch
open Library ResourceApplication

/-- What is outside the program text: the configured number of processors per node and the
orders in which hash maps are iterated. -/
structure Setting where
  perNode : Int
  typeOrder : List String → List String
  placeOrder : List (ProcessorRef × Nat) → List (ProcessorRef × Nat)
  placed : ∀ places, (placeOrder places).Perm places

/-- What a strategy leaves: the application, and the exception if it threw. -/
abbrev Result := ResourceApplication × Option JavaException

def getFirstUnAllocatedResource (node : ErServerNode) (app : ResourceApplication) : Int :=
  match node.resources.find? (fun r => r.resourceType = app.sortByResourceType) with
  | some r => r.getUnAllocatedResource
  | none => 0

def getNextGpuIndex (size : Int) (alreadyAllocated : List String) : Int :=
  match (List.range size.toNat).find? (fun index => toString index ∉ alreadyAllocated) with
  | some index => index
  | none => -1

/-- An attempt under way: the nodes as changed so far, and where the processors went. -/
structure Attempt where
  nodes : List ErServerNode
  app : ResourceApplication
  places : List (ProcessorRef × Nat)

/-- The next free GPU index of the node, noted in its resource and given to `r`. -/
def takeGpu (node : ErServerNode) (r : ErResource) : Option (ErServerNode × ErResource × Int) :=
  match node.resources.findIdx? (fun res => res.resourceType = Dict.VGPU_CORE) with
  | none => none
  | some i =>
    node.resources[i]?.map fun gpu =>
      let allocated := gpu.extention.getD []
      let next := getNextGpuIndex gpu.total allocated
      let noted := { gpu with extention := some (allocated ++ [toString next]) }
      ({ node with resources := node.resources.set i noted },{ r with extention := some [toString next] },next)

/-- The loop over the resources of a processor. -/
def placeResources (node : ErServerNode) : List ErResource → Int → ErServerNode × List ErResource × Int
  | [], nextGpuIndex => (node,[],nextGpuIndex)
  | r :: rest, nextGpuIndex =>
    match if r.resourceType = Dict.VGPU_CORE then takeGpu node r else none with
    | some (node',r',next) =>
      let later := placeResources node' rest next
      (later.1,r' :: later.2.1,later.2.2)
    | none =>
      let later := placeResources node rest nextGpuIndex
      (later.1,r :: later.2.1,later.2.2)

def place (a : Attempt) (index : Nat) (processor : ErProcessor) (at_node : Nat) (node : ErServerNode) :
    Attempt :=
  let (node',resources,nextGpuIndex) := placeResources node processor.resources (-1)
  let placed := { processor with
    serverNodeId := some node.id
    commandEndpoint := some (node.host,0)
    resources := resources }.putOption "cudaVisibleDevices" (toString nextGpuIndex)
  { nodes := a.nodes.set at_node node'
    app := { a.app with processors := a.app.processors.set index placed }
    places := a.places ++ [(.requested index,at_node)] }

/-- The processors from `index` on, each put on the node that `choose` has for it. -/
def placeAll (choose : Nat → Option Nat) : List ErProcessor → Nat → Attempt →
    Attempt × Option JavaException
  | [], _, a => (a,none)
  | processor :: rest, index, a =>
    match (choose index).bind (fun i => a.nodes[i]?.map (fun node => (i,node))) with
    | none => (a,some .indexOutOfBounds)
    | some (i,node) => placeAll choose rest (index + 1) (place a index processor i node)

/-- `resourceDispatch.addAll(result)`, in the order in which the map of nodes gives it. -/
def collect (setting : Setting) (a : Attempt) : ResourceApplication :=
  { a.app with resourceDispatch := a.app.resourceDispatch ++
      (setting.placeOrder a.places).filterMap fun (ref,i) => a.nodes[i]?.map (fun node => (ref,node)) }

def finish (setting : Setting) : Attempt × Option JavaException → Result
  | (a,some e) => (a.app,some e)
  | (a,none) => (collect setting a,none)

def begin (nodes : List ErServerNode) (app : ResourceApplication) : Attempt := ⟨nodes,app,[]⟩

/-- Node places in the order of a stable sort by the amount left of the sort-by type. -/
def sortNodes (nodes : List ErServerNode) (app : ResourceApplication) (sign : Int) (tupes : List Nat) :
    List Nat :=
  let remain (i : Nat) : Int := (nodes[i]?.map (fun node => long (sign * getFirstUnAllocatedResource node app))).getD 0
  tupes.insertionSort (fun i j => remain i ≤ remain j)

/-- The last node of the list, which is sorted upwards first and downwards from the first
processor with a resource on. -/
def remainMostFirst (nodes : List ErServerNode) (app : ResourceApplication) (index : Nat) : Option Nat :=
  let upwards := sortNodes nodes app 1 (List.range nodes.length)
  if (app.processors.take index).any (fun p => !p.resources.isEmpty) then
    (sortNodes nodes app (-1) upwards).getLast?
  else upwards.getLast?

def remainMostFirstDispatch (setting : Setting) (nodes : List ErServerNode) (app : ResourceApplication) :
    Result :=
  if nodes.any (fun node => node.resources.isEmpty) then (app,some .indexOutOfBounds)
  else finish setting (placeAll (remainMostFirst nodes app) app.processors 0 (begin nodes app))

/-- `sortNodeList`: every node as often as it has units left. -/
def sortNodeList (nodes : List ErServerNode) (app : ResourceApplication) : List Nat :=
  (sortNodes nodes app (-1) (List.range nodes.length)).flatMap fun i =>
    List.replicate ((nodes[i]?.map (fun node => getFirstUnAllocatedResource node app)).getD 0).toNat i

def singleNodeFirstDispatch (setting : Setting) (nodes : List ErServerNode) (app : ResourceApplication) :
    Result :=
  if nodes.any (fun node => node.resources.isEmpty) then (app,some .indexOutOfBounds)
  else finish setting (placeAll (fun index => (sortNodeList nodes app)[index]?) app.processors 0
    (begin nodes app))

/-- `Collections.shuffle` gave the nodes the order `shuffled`; each takes one processor. -/
def randomPlace : List Nat → List ErProcessor → Nat → Attempt → Attempt × Option JavaException
  | _, [], _, a => (a,none)
  | [], _ :: _, _, a => (a,some .indexOutOfBounds)
  | i :: shuffled, processor :: rest, index, a =>
    match a.nodes[i]? with
    | none => (a,some .indexOutOfBounds)
    | some node =>
      let placed := { processor with serverNodeId := some node.id, commandEndpoint := some (node.host,0) }
      randomPlace shuffled rest (index + 1)
        { a with
          app := { a.app with processors := a.app.processors.set index placed }
          places := a.places ++ [(.requested index,i)] }

def randomDispatch (setting : Setting) (shuffled : List Nat) (nodes : List ErServerNode)
    (app : ResourceApplication) : Result :=
  finish setting (randomPlace shuffled app.processors 0 (begin nodes app))

/-- One processor made for a type on a node. The list of a node's processors is a
`singletonList`, so a second one for the node throws. -/
def fixPlace (resourceType elem : String) (i : Nat) (a : Attempt) : Attempt × Option JavaException :=
  match a.nodes[i]? with
  | none => (a,some .indexOutOfBounds)
  | some node =>
    let resource : ErResource :=
      { resourceType := resourceType, allocated := 1, status := "PRE_ALLOCATED" }
    let processor : ErProcessor :=
      { processorType := elem, status := "NEW", serverNodeId := some node.id
        commandEndpoint := some (node.host,0), resources := [resource] }
    if a.places.any (fun placed => a.nodes[placed.2]? = some node) then (a,some .unsupportedOperation)
    else
      ({ a with
          app := { a.app with created := a.app.created ++ [processor] }
          places := a.places ++ [(.created a.app.created.length,i)] },none)

def fixPlaceAll (resourceType : String) : List (String × Nat) → Attempt → Attempt × Option JavaException
  | [], a => (a,none)
  | (elem,i) :: rest, a =>
    match fixPlace resourceType elem i a with
    | (a',none) => fixPlaceAll resourceType rest a'
    | failed => failed

def fixDispatch (setting : Setting) (nodes : List ErServerNode) (app : ResourceApplication) : Result :=
  match parseInt (getOrDefault app.options Dict.CONFKEY_SESSION_PROCESSORS_PER_NODE (toString setting.perNode)) with
  | .error e => (app,some e)
  | .ok eggsPerNode =>
    let resourceType := getOrDefault app.options "resourceType" Dict.VCPU_CORE
    finish setting (fixPlaceAll resourceType (app.processorTypes.flatMap fun elem =>
      (List.range nodes.length).flatMap fun i => List.replicate eggsPerNode.toNat (elem,i)) (begin nodes app))

def dispatch (setting : Setting) (shuffled : List Nat) (nodes : List ErServerNode)
    (app : ResourceApplication) : Result :=
  match app.dispatchStrategy with
  | none => (app,some .nullPointer)
  | some strategy =>
    if strategy = Dict.REMAIN_MOST_FIRST then remainMostFirstDispatch setting nodes app
    else if strategy = Dict.RANDOM then randomDispatch setting shuffled nodes app
    else if strategy = Dict.FIX then fixDispatch setting nodes app
    else if strategy = Dict.SINGLE_NODE_FIRST then singleNodeFirstDispatch setting nodes app
    else (app,none)

/-- Only the processors, those made and the dispatch differ, and no processor is added to
those requested. -/
structure Kept (app app' : ResourceApplication) : Prop where
  same : app' = { app with
    processors := app'.processors
    created := app'.created
    resourceDispatch := app'.resourceDispatch }
  count : app'.processors.length = app.processors.length

theorem Kept.refl (app : ResourceApplication) : Kept app app := ⟨rfl,rfl⟩

theorem Kept.trans {app app' app'' : ResourceApplication} (first : Kept app app') (second : Kept app' app'') :
    Kept app app'' := by
  refine ⟨?_,second.count.trans first.count⟩
  rw [second.same,first.same]

/-- The processor that a reference stands for has been given one of the nodes. -/
def Served (nodes : List ErServerNode) (app : ResourceApplication) (ref : ProcessorRef) : Prop :=
  ∃ p id, app.object ref = some p ∧ p.serverNodeId = some id ∧ id ∈ nodes.map ErServerNode.id

/-- An attempt that has placed the processors `refs`. -/
structure Attempt.Sound (nodes : List ErServerNode) (app : ResourceApplication) (a : Attempt)
    (refs : List ProcessorRef) : Prop where
  kept : Kept app a.app
  dispatch : a.app.resourceDispatch = app.resourceDispatch
  ids : a.nodes.map ErServerNode.id = nodes.map ErServerNode.id
  places : a.places.map Prod.fst = refs
  inside : ∀ place ∈ a.places, place.2 < a.nodes.length
  served : ∀ ref ∈ refs, Served nodes a.app ref

/-- The first `done` of the requested processors. -/
def firstRequested (done : Nat) : List ProcessorRef := (List.range done).map .requested

private theorem firstRequested_succ (done : Nat) :
    firstRequested (done + 1) = firstRequested done ++ [.requested done] := by
  rw [firstRequested,List.range_succ,List.map_append]
  rfl

private theorem firstRequested_nodup (done : Nat) : (firstRequested done).Nodup :=
  List.nodup_range.map fun _ _ same => by cases same; rfl

/-- `done` processors made after the first `before`. -/
def nextCreated (before done : Nat) : List ProcessorRef := (List.range' before done).map .created

private theorem nextCreated_succ (before done : Nat) :
    nextCreated before (done + 1) = nextCreated before done ++ [.created (before + done)] := by
  rw [nextCreated,List.range'_1_concat,List.map_append]
  rfl

private theorem nextCreated_nodup (before done : Nat) : (nextCreated before done).Nodup :=
  List.Nodup.map (fun _ _ same => by cases same; rfl) (List.nodup_range' 1)

namespace Attempt.Sound
variable {nodes : List ErServerNode} {app : ResourceApplication} {a : Attempt}

theorem begin (nodes : List ErServerNode) (app : ResourceApplication) : Attempt.Sound nodes app (begin nodes app) [] :=
  ⟨.refl app,rfl,rfl,rfl,fun _ member => by simp [ResourceDispatch.begin] at member,
    fun _ member => by simp at member⟩

theorem extend {refs : List ProcessorRef} (sound : a.Sound nodes app refs) (app' : ResourceApplication)
    (ref : ProcessorRef) {i : Nat} {node node' : ErServerNode} {placed : ErProcessor}
    (chosen : a.nodes[i]? = some node) (id : node'.id = node.id) (kept : Kept a.app app')
    (dispatch : app'.resourceDispatch = a.app.resourceDispatch) (there : app'.object ref = some placed) (server : placed.serverNodeId = some node.id)
    (stay : ∀ other ∈ refs, app'.object other = a.app.object other) :
    Attempt.Sound nodes app ⟨a.nodes.set i node',app',a.places ++ [(ref,i)]⟩ (refs ++ [ref]) := by
  obtain ⟨within,at_i⟩ := List.getElem?_eq_some_iff.mp chosen
  have known : node.id ∈ nodes.map ErServerNode.id := by
    rw [← sound.ids]
    exact List.mem_map_of_mem (List.mem_of_getElem? chosen)
  refine ⟨sound.kept.trans kept,dispatch.trans sound.dispatch,?_,?_,?_,?_⟩
  · have same : (a.nodes.map ErServerNode.id)[i]? = some node'.id := by
      rw [List.getElem?_map,chosen,id]
      rfl
    rw [← sound.ids,List.map_set]
    exact set_same same
  · rw [List.map_append,sound.places]
    rfl
  · intro place member
    rw [List.length_set]
    rcases List.mem_append.mp member with before | now
    · exact sound.inside place before
    · rw [List.mem_singleton.mp now]
      exact within
  · intro other member
    rcases List.mem_append.mp member with before | now
    · obtain ⟨p,id,object,rest⟩ := sound.served other before
      exact ⟨p,id,(stay other before).trans object,rest⟩
    · rw [List.mem_singleton.mp now]
      exact ⟨placed,node.id,there,server,known⟩

theorem next {done : Nat} (sound : a.Sound nodes app (firstRequested done)) (more : done < app.processors.length)
    {i : Nat} {node node' : ErServerNode} (chosen : a.nodes[i]? = some node) (id : node'.id = node.id)
    {placed : ErProcessor} (server : placed.serverNodeId = some node.id) :
    Attempt.Sound nodes app
      ⟨a.nodes.set i node',{ a.app with processors := a.app.processors.set done placed },
        a.places ++ [(.requested done,i)]⟩ (firstRequested (done + 1)) := by
  have room : done < a.app.processors.length := by rw [sound.kept.count]; exact more
  rw [firstRequested_succ]
  refine sound.extend { a.app with processors := a.app.processors.set done placed } (.requested done) chosen id
    ⟨rfl,by simp⟩ rfl (List.getElem?_set_self room) server ?_
  intro other member
  obtain ⟨j,less,rfl⟩ := List.mem_map.mp member
  exact List.getElem?_set_ne (Nat.ne_of_gt (List.mem_range.mp less))

end Attempt.Sound

private theorem takeGpu_id {node node' : ErServerNode} {r r' : ErResource} {next : Int}
    (taken : takeGpu node r = some (node',r',next)) : node'.id = node.id := by
  unfold takeGpu at taken
  split at taken
  · cases taken
  · obtain ⟨gpu,-,made⟩ := Option.map_eq_some_iff.mp taken
    cases made
    rfl

theorem placeResources_id (node : ErServerNode) (resources : List ErResource) (nextGpuIndex : Int) :
    (placeResources node resources nextGpuIndex).1.id = node.id := by
  induction resources generalizing node nextGpuIndex with
  | nil => rfl
  | cons r rest ih =>
    rw [placeResources]
    split
    · rename_i node' r' next taken
      split at taken
      · exact (ih node' next).trans (takeGpu_id taken)
      · cases taken
    · exact ih node nextGpuIndex

section
variable {nodes : List ErServerNode} {app : ResourceApplication}

theorem placeAll_sound (choose : Nat → Option Nat) (rest : List ErProcessor) (index : Nat) {a : Attempt}
    (sound : a.Sound nodes app (firstRequested index)) (room : index + rest.length ≤ app.processors.length) :
    let after := placeAll choose rest index a
    ∃ done, after.1.Sound nodes app (firstRequested done) ∧ (after.2 = none → done = index + rest.length) := by
  induction rest generalizing index a with
  | nil => exact ⟨index,sound,fun _ => rfl⟩
  | cons processor rest ih =>
    rw [List.length_cons] at room
    dsimp only [placeAll]
    split
    · exact ⟨index,sound,fun threw => by simp at threw⟩
    · rename_i i node chosen
      obtain ⟨i',-,mapped⟩ := Option.bind_eq_some_iff.mp chosen
      obtain ⟨node',there,pair⟩ := Option.map_eq_some_iff.mp mapped
      cases pair
      have placed : (place a index processor i node).Sound nodes app (firstRequested (index + 1)) :=
        sound.next (by omega) there (placeResources_id node processor.resources (-1)) rfl
      obtain ⟨done,after,all⟩ := ih (index + 1) placed (by omega)
      refine ⟨done,after,fun normal => ?_⟩
      rw [all normal,List.length_cons]
      omega

theorem randomPlace_sound (shuffled : List Nat) (rest : List ErProcessor) (index : Nat) {a : Attempt}
    (sound : a.Sound nodes app (firstRequested index)) (room : index + rest.length ≤ app.processors.length) :
    let after := randomPlace shuffled rest index a
    ∃ done, after.1.Sound nodes app (firstRequested done) ∧ (after.2 = none → done = index + rest.length) := by
  induction rest generalizing shuffled index a with
  | nil =>
    cases shuffled <;> exact ⟨index,sound,fun _ => rfl⟩
  | cons processor rest ih =>
    rw [List.length_cons] at room
    cases shuffled with
    | nil => exact ⟨index,sound,fun threw => by simp [randomPlace] at threw⟩
    | cons i shuffled =>
      dsimp only [randomPlace]
      split
      · exact ⟨index,sound,fun threw => by simp at threw⟩
      · rename_i node there
        have same : a.nodes.set i node = a.nodes := set_same there
        let placed := { processor with serverNodeId := some node.id, commandEndpoint := some (node.host,0) }
        have moved := sound.next (by omega) there rfl (show placed.serverNodeId = some node.id from rfl)
        rw [same] at moved
        obtain ⟨done,after,all⟩ := ih shuffled (index + 1) moved (by omega)
        refine ⟨done,after,fun normal => ?_⟩
        rw [all normal,List.length_cons]
        omega

private theorem fixPlace_sound (resourceType elem : String) (i : Nat) {a : Attempt} {before done : Nat}
    (sound : a.Sound nodes app (nextCreated before done)) (made : a.app.created.length = before + done) :
    ∃ done', (fixPlace resourceType elem i a).1.Sound nodes app (nextCreated before done') ∧
      (fixPlace resourceType elem i a).1.app.created.length = before + done' := by
  unfold fixPlace
  split
  · exact ⟨done,sound,made⟩
  · rename_i node there
    dsimp only
    split
    · exact ⟨done,sound,made⟩
    · have same : a.nodes.set i node = a.nodes := set_same there
      refine ⟨done + 1,?_,by simp [made,Nat.add_assoc]⟩
      rw [nextCreated_succ,← made,← same]
      refine sound.extend { a.app with created := a.app.created ++ [_] } (.created a.app.created.length) there rfl
        ⟨rfl,rfl⟩ rfl List.getElem?_concat_length rfl ?_
      intro other member
      obtain ⟨j,less,rfl⟩ := List.mem_map.mp member
      have old : j < a.app.created.length := by
        rw [made]
        exact (List.mem_range'_1.mp less).2
      exact List.getElem?_append_left old

private theorem fixPlaceAll_sound (resourceType : String) (grid : List (String × Nat)) {a : Attempt} {before done : Nat}
    (sound : a.Sound nodes app (nextCreated before done)) (made : a.app.created.length = before + done) :
    ∃ done', (fixPlaceAll resourceType grid a).1.Sound nodes app (nextCreated before done') := by
  induction grid generalizing a done with
  | nil => exact ⟨done,sound⟩
  | cons cell rest ih =>
    obtain ⟨elem,i⟩ := cell
    obtain ⟨done',one,length⟩ := fixPlace_sound resourceType elem i sound made
    rw [fixPlaceAll]
    split
    · rename_i a' placed
      rw [placed] at one length
      exact ih one length
    · exact ⟨done',one⟩

/-- What a strategy leaves: it keeps the rest of the application, and the dispatch too if
it threw. -/
structure Leaves (app : ResourceApplication) (result : Result) : Prop where
  kept : Kept app result.1
  threw : ∀ e, result.2 = some e → result.1.resourceDispatch = app.resourceDispatch

/-- The strategies that place the requested processors; `fix` makes its own. -/
def placing : List String := [Dict.REMAIN_MOST_FIRST,Dict.RANDOM,Dict.SINGLE_NODE_FIRST]

/-- The processors `refs` have been placed, each once, on one of the nodes: those requested,
where the strategy places these. -/
structure Places (nodes : List ErServerNode) (app result : ResourceApplication) (refs : List ProcessorRef) :
    Prop where
  once : refs.Nodup
  dispatch : result.resourceDispatch.map Prod.fst = app.resourceDispatch.map Prod.fst ++ refs
  served : ∀ ref ∈ refs, Served nodes result ref
  requested : ∀ strategy ∈ placing, app.dispatchStrategy = some strategy →
    refs.Perm (firstRequested app.processors.length)

theorem collected {all : List ErServerNode} {places : List (ProcessorRef × Nat)}
    (inside : ∀ place ∈ places, place.2 < all.length) :
    (places.filterMap fun (ref,i) => all[i]?.map (fun node => (ref,node))).map Prod.fst = places.map Prod.fst := by
  induction places with
  | nil => rfl
  | cons place rest ih =>
    obtain ⟨ref,i⟩ := place
    have within : i < all.length := inside (ref,i) List.mem_cons_self
    rw [List.filterMap_cons]
    simp only [List.getElem?_eq_getElem within,Option.map_some,List.map_cons]
    rw [ih fun place member => inside place (List.mem_cons_of_mem _ member)]

theorem finish_leaves (setting : Setting) {after : Attempt × Option JavaException} {refs : List ProcessorRef}
    (sound : after.1.Sound nodes app refs) : Leaves app (finish setting after) := by
  obtain ⟨a,_ | e⟩ := after
  · exact ⟨sound.kept.trans ⟨rfl,rfl⟩,fun _ threw => by simp [finish] at threw⟩
  · exact ⟨sound.kept,fun _ _ => sound.dispatch⟩

private theorem finish_places (setting : Setting) {after : Attempt × Option JavaException} {refs : List ProcessorRef}
    (sound : after.1.Sound nodes app refs) (normal : (finish setting after).2 = none) (once : refs.Nodup)
    (requested : after.2 = none → ∀ strategy ∈ placing, app.dispatchStrategy = some strategy →
      refs = firstRequested app.processors.length) :
    ∃ refs', Places nodes app (finish setting after).1 refs' := by
  obtain ⟨a,_ | e⟩ := after
  · have same : ((setting.placeOrder a.places).map Prod.fst).Perm refs :=
      sound.places ▸ (setting.placed a.places).map Prod.fst
    have inside : ∀ place ∈ setting.placeOrder a.places, place.2 < a.nodes.length :=
      fun place member => sound.inside place ((setting.placed a.places).mem_iff.mp member)
    have before : a.app.resourceDispatch = app.resourceDispatch := sound.dispatch
    refine ⟨(setting.placeOrder a.places).map Prod.fst,same.nodup_iff.mpr once,?_,?_,?_⟩
    · simp only [finish,collect,List.map_append,before,collected inside]
    · exact fun ref member => sound.served ref (same.mem_iff.mp member)
    · exact fun strategy known found => requested rfl strategy known found ▸ same
  · cases normal

private theorem placeAll_finish (setting : Setting) (choose : Nat → Option Nat) :
    Leaves app (finish setting (placeAll choose app.processors 0 (begin nodes app))) ∧
      ((finish setting (placeAll choose app.processors 0 (begin nodes app))).2 = none →
        ∃ refs, Places nodes app (finish setting (placeAll choose app.processors 0 (begin nodes app))).1 refs) := by
  obtain ⟨done,sound,all⟩ := placeAll_sound choose app.processors 0 (.begin nodes app) (by omega)
  refine ⟨finish_leaves setting sound,fun normal => ?_⟩
  exact finish_places setting sound normal (firstRequested_nodup done) fun complete _ _ _ => by
    rw [all complete,Nat.zero_add]

private theorem randomDispatch_finish (setting : Setting) (shuffled : List Nat) :
    Leaves app (randomDispatch setting shuffled nodes app) ∧
      ((randomDispatch setting shuffled nodes app).2 = none →
        ∃ refs, Places nodes app (randomDispatch setting shuffled nodes app).1 refs) := by
  obtain ⟨done,sound,all⟩ := randomPlace_sound shuffled app.processors 0 (.begin nodes app) (by omega)
  refine ⟨finish_leaves setting sound,fun normal => ?_⟩
  exact finish_places setting sound normal (firstRequested_nodup done) fun complete _ _ _ => by
    rw [all complete,Nat.zero_add]

private theorem fixDispatch_finish (setting : Setting) (other : ∀ strategy ∈ placing, app.dispatchStrategy ≠ some strategy) :
    Leaves app (fixDispatch setting nodes app) ∧
      ((fixDispatch setting nodes app).2 = none → ∃ refs, Places nodes app (fixDispatch setting nodes app).1 refs) := by
  unfold fixDispatch
  split
  · exact ⟨⟨.refl app,fun _ _ => rfl⟩,fun threw => by simp at threw⟩
  · rename_i eggsPerNode parsed
    dsimp only
    have fresh : (begin nodes app).Sound nodes app (nextCreated app.created.length 0) := .begin nodes app
    obtain ⟨done,sound⟩ := fixPlaceAll_sound (getOrDefault app.options "resourceType" Dict.VCPU_CORE)
      (app.processorTypes.flatMap fun elem =>
        (List.range nodes.length).flatMap fun i => List.replicate eggsPerNode.toNat (elem,i)) fresh rfl
    refine ⟨finish_leaves setting sound,fun normal => ?_⟩
    exact finish_places setting sound normal (nextCreated_nodup _ done) fun _ strategy known found =>
      absurd found (other strategy known)

theorem dispatch_spec (setting : Setting) (shuffled : List Nat) (nodes : List ErServerNode)
    (app : ResourceApplication) : Leaves app (dispatch setting shuffled nodes app) ∧
      ((dispatch setting shuffled nodes app).2 = none →
        ∃ refs, Places nodes app (dispatch setting shuffled nodes app).1 refs) := by
  have threw (e : JavaException) : Leaves app (app,some e) ∧ ((app,some e).2 = none →
      ∃ refs, Places nodes app ((app,some e) : Result).1 refs) :=
    ⟨⟨.refl app,fun _ _ => rfl⟩,fun normal => by simp at normal⟩
  unfold dispatch
  split
  · exact threw _
  · rename_i strategy known
    split
    · unfold remainMostFirstDispatch
      split
      · exact threw _
      · exact placeAll_finish setting _
    · rename_i not_most
      split
      · exact randomDispatch_finish setting shuffled
      · rename_i not_random
        split
        · rename_i fix
          refine fixDispatch_finish setting fun strategy' member found => ?_
          rw [known] at found
          cases found
          simp [placing,fix,Dict.FIX,Dict.REMAIN_MOST_FIRST,Dict.RANDOM,Dict.SINGLE_NODE_FIRST] at member
        · split
          · unfold singleNodeFirstDispatch
            split
            · exact threw _
            · exact placeAll_finish setting _
          · rename_i not_single
            refine ⟨⟨.refl app,fun _ _ => rfl⟩,fun _ => ⟨[],List.nodup_nil,by simp,by simp,?_⟩⟩
            intro strategy' member found
            rw [known] at found
            cases found
            simp [placing,not_most,not_random,not_single] at member

end

end Eggroll.ResourceDispatch
