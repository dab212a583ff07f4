import Mathlib.Data.List.Dedup
import Eggroll.Library.Filling
import Eggroll.Library.PyString
import Eggroll.NodePlacing
import Eggroll.ResourceAdmission

/-! `singleNodeFirstDispatch`: how many processors each node gets, which GPUs they get there,
and that the list of nodes and the lists of indices agree. -/
namespace Eggroll.ResourceDispatch
open Library ResourceApplication

/-- The resource that the node's GPUs are taken from. -/
def gpuOf (node : ErServerNode) : Option ErResource :=
  node.resources.find? fun r => r.resourceType = Dict.VGPU_CORE

def notedIndices (gpu : ErResource) : List ℕ :=
  (List.range gpu.total.toNat).filter fun index => toString index ∈ gpu.extention.getD []

def freeIndices (gpu : ErResource) : List ℕ :=
  (List.range gpu.total.toNat).filter fun index => toString index ∉ gpu.extention.getD []

/-- As many indices are noted as units are taken; an amount that is not positive takes none. -/
def Noted (gpu : ErResource) : Prop :=
  (notedIndices gpu).length = gpu.allocated.toNat + gpu.preAllocated.toNat ∧ gpu.total < 2 ^ 63

private theorem Noted.units_le {gpu : ErResource} (noted : Noted gpu) :
    gpu.getUnAllocatedResource.toNat ≤ (freeIndices gpu).length := by
  have both : (notedIndices gpu).length + (freeIndices gpu).length = gpu.total.toNat := by
    rw [← List.length_range (n := gpu.total.toNat)]
    simpa [notedIndices,freeIndices] using (List.length_eq_length_filter_add (l := List.range gpu.total.toNat)
      (fun index => decide (toString index ∈ gpu.extention.getD []))).symm
  obtain ⟨taken,small⟩ := noted
  have remain : (if 0 < gpu.allocated then long (gpu.total - gpu.allocated) else gpu.total) =
      gpu.total - gpu.allocated.toNat := by
    split
    · rw [long_of_range (by omega) (by omega)]
      omega
    · omega
  have unallocated : gpu.getUnAllocatedResource = gpu.total - gpu.allocated.toNat - gpu.preAllocated.toNat := by
    rw [ErResource.getUnAllocatedResource,remain]
    split
    · rw [long_of_range (by omega) (by omega)]
      omega
    · omega
  omega

private theorem getNextGpuIndex_eq {gpu : ErResource} {m : ℕ} (more : m < (freeIndices gpu).length) :
    getNextGpuIndex gpu.total (gpu.extention.getD [] ++ ((freeIndices gpu).take m).map toString) =
      ((freeIndices gpu)[m] : ℕ) := by
  have found := find?_next_free (fun index : ℕ => toString index ∉ gpu.extention.getD [])
    (List.nodup_range (n := gpu.total.toNat)) m
  have same : (fun index : ℕ => decide (toString index ∉
      gpu.extention.getD [] ++ ((freeIndices gpu).take m).map toString)) =
      fun index => decide (toString index ∉ gpu.extention.getD [] ∧ index ∉ (freeIndices gpu).take m) := by
    funext index
    simp only [List.mem_append,not_or,List.mem_map,not_exists,not_and]
    refine decide_eq_decide.mpr (and_congr_right fun _ => ⟨fun apart member => apart index member rfl,?_⟩)
    intro apart other member shown
    have equal : other = index := decimals_inj (by rw [decimals,decimals,shown])
    exact apart (equal ▸ member)
  have next : (List.range gpu.total.toNat).find? (fun index : ℕ => toString index ∉
      gpu.extention.getD [] ++ ((freeIndices gpu).take m).map toString) = (freeIndices gpu)[m]? := by
    rw [same]
    exact found
  rw [getNextGpuIndex,next,List.getElem?_eq_getElem more]

/-- The resource once the index has been added to its list. -/
def noteIndex (gpu : ErResource) (index : Int) : ErResource :=
  { gpu with extention := some (gpu.extention.getD [] ++ [toString index]) }

def nextIndex (gpu : ErResource) : Int := getNextGpuIndex gpu.total (gpu.extention.getD [])

private theorem find?_set {items : List ErResource} {p : ErResource → Bool} {r : ErResource} (found : items.find? p = some r) :
    ∃ i, items.findIdx? p = some i ∧ items[i]? = some r ∧
      ∀ r', p r' = true → (items.set i r').find? p = some r' := by
  induction items with
  | nil => cases found
  | cons first rest ih =>
    rw [List.find?_cons] at found
    rw [List.findIdx?_cons]
    split at found
    · rename_i holds
      cases found
      exact ⟨0,by rw [holds]; rfl,rfl,fun r' holds' => by rw [List.set_cons_zero,List.find?_cons,holds']⟩
    · rename_i fails
      obtain ⟨i,at_i,there,set⟩ := ih found
      refine ⟨i + 1,by rw [fails,at_i]; rfl,there,fun r' holds' => ?_⟩
      rw [List.set_cons_succ,List.find?_cons,fails]
      exact set r' holds'

private theorem takeGpu_eq {node : ErServerNode} {gpu : ErResource} (found : gpuOf node = some gpu) (r : ErResource) :
    ∃ node', takeGpu node r = some (node',{ r with extention := some [toString (nextIndex gpu)] },nextIndex gpu) ∧
      gpuOf node' = some (noteIndex gpu (nextIndex gpu)) := by
  obtain ⟨i,at_i,there,set⟩ := find?_set found
  have type : decide (gpu.resourceType = Dict.VGPU_CORE) = true := by simpa using List.find?_some found
  refine ⟨{ node with resources := node.resources.set i (noteIndex gpu (nextIndex gpu)) },?_,set _ type⟩
  simp only [takeGpu,at_i,there]
  rfl

private theorem placeResources_other {node : ErServerNode} {resources : List ErResource}
    (other : ∀ r ∈ resources, r.resourceType ≠ Dict.VGPU_CORE) (next : Int) :
    placeResources node resources next = (node,resources,next) := by
  induction resources with
  | nil => rfl
  | cons r rest ih =>
    rw [placeResources,if_neg (other r List.mem_cons_self),ih fun s member => other s (List.mem_cons_of_mem _ member)]

def Shows (index : Int) (p : ErProcessor) : Prop :=
  p.options.lookup "cudaVisibleDevices" = some (toString index) ∧
    ∀ r ∈ p.resources, r.resourceType = Dict.VGPU_CORE → r.extention = some [toString index]

private theorem placeResources_gpu {node : ErServerNode} {gpu : ErResource} (found : gpuOf node = some gpu)
    {resources : List ErResource}
    (one : (resources.filter fun r => r.resourceType = Dict.VGPU_CORE).length = 1) (next : Int) :
    ∃ node' resources', placeResources node resources next = (node',resources',nextIndex gpu) ∧
      gpuOf node' = some (noteIndex gpu (nextIndex gpu)) ∧
      ∀ r ∈ resources', r.resourceType = Dict.VGPU_CORE → r.extention = some [toString (nextIndex gpu)] := by
  induction resources generalizing next with
  | nil => cases one
  | cons r rest ih =>
    by_cases type : r.resourceType = Dict.VGPU_CORE
    · -- the resources after it are of other types
      rw [List.filter_cons_of_pos (by simpa using type),List.length_cons,Nat.add_eq_right] at one
      have other : ∀ s ∈ rest, s.resourceType ≠ Dict.VGPU_CORE := fun s member gpu =>
        List.filter_eq_nil_iff.mp (List.eq_nil_of_length_eq_zero one) s member (by simpa using gpu)
      obtain ⟨node',taken,noted⟩ := takeGpu_eq found r
      refine ⟨node',{ r with extention := some [toString (nextIndex gpu)] } :: rest,?_,noted,?_⟩
      · rw [placeResources,if_pos type,taken]
        simp only [placeResources_other other]
      · intro s member gpu
        rcases List.mem_cons.mp member with rfl | later
        · rfl
        · exact absurd gpu (other s later)
    · rw [List.filter_cons_of_neg (by simpa using type)] at one
      obtain ⟨node',resources',placed,noted,shown⟩ := ih one next
      refine ⟨node',r :: resources',?_,noted,?_⟩
      · rw [placeResources,if_neg type,placed]
      · intro s member gpu
        rcases List.mem_cons.mp member with rfl | later
        · exact absurd gpu type
        · exact shown s later gpu

/-- The GPU of the `i`-th processor: of those that are free at its node, as many come before
it as processors do. -/
def gpuAt (nodes : List ErServerNode) (spot : ℕ → ℕ) (i : ℕ) : ℕ :=
  (((nodes[spot i]?.bind gpuOf).map freeIndices).getD [])[given i spot (spot i)]?.getD 0

/-- The first `k` processors are at their nodes with their GPUs, and each node has noted those
it has given. -/
structure Handed (nodes : List ErServerNode) (app : ResourceApplication) (spot : ℕ → ℕ) (k : ℕ) (a : Attempt) :
    Prop where
  put : Put nodes app spot k a
  noted : ∀ j gpu, nodes[j]?.bind gpuOf = some gpu → ∃ gpu', a.nodes[j]?.bind gpuOf = some gpu' ∧
    gpu'.total = gpu.total ∧
    gpu'.extention.getD [] = gpu.extention.getD [] ++ ((freeIndices gpu).take (given k spot j)).map toString
  shown : ∀ i < k, ∃ p, a.app.processors[i]? = some p ∧ Shows (gpuAt nodes spot i) p

section
variable {nodes : List ErServerNode} {app : ResourceApplication} {spot : ℕ → ℕ} {a : Attempt}

theorem Handed.begin (nodes : List ErServerNode) (app : ResourceApplication) (spot : ℕ → ℕ) :
    Handed nodes app spot 0 (begin nodes app) where
  put := .begin nodes app spot
  noted _ gpu there := ⟨gpu,there,rfl,by simp [given]⟩
  shown _ less := absurd less (Nat.not_lt_zero _)

private theorem gpuAt_free {i : ℕ} {gpu : ErResource} (known : nodes[spot i]?.bind gpuOf = some gpu)
    (room : given i spot (spot i) < (freeIndices gpu).length) :
    gpuAt nodes spot i = (freeIndices gpu)[given i spot (spot i)] := by
  rw [gpuAt,known,Option.map_some,Option.getD_some,List.getElem?_eq_getElem room,Option.getD_some]

theorem Handed.next {k : ℕ} (handed : Handed nodes app spot k a) {processor : ErProcessor} {node : ErServerNode}
    (there : a.nodes[spot k]? = some node) (more : k < app.processors.length) (one : OneUnit Dict.VGPU_CORE processor)
    {gpu : ErResource} (known : nodes[spot k]?.bind gpuOf = some gpu)
    (room : given k spot (spot k) < (freeIndices gpu).length) :
    Handed nodes app spot (k + 1) (place a k processor (spot k) node) := by
  obtain ⟨now,found,total,extention⟩ := handed.noted (spot k) gpu known
  rw [there,Option.bind_some] at found
  have taken := gpuAt_free known room
  have next : nextIndex now = gpuAt nodes spot k := by
    rw [nextIndex,total,extention,getNextGpuIndex_eq room,taken]
  obtain ⟨node',resources',placed,noted,shown⟩ := placeResources_gpu found
    (by simpa using congrArg List.length one) (-1)
  rw [next] at placed noted shown
  refine ⟨handed.put.place there more,fun j gpu' at_j => ?_,fun i less => ?_⟩
  · have length : spot k < a.nodes.length := (List.getElem?_eq_some_iff.mp there).1
    by_cases this : spot k = j
    · subst this
      rw [known] at at_j
      cases at_j
      refine ⟨noteIndex now (gpuAt nodes spot k),?_,total,?_⟩
      · rw [← noted]
        simp [place,placed,List.getElem?_set_self length]
      · rw [given_succ,if_pos rfl,List.take_add_one,List.map_append,← List.append_assoc,← extention,
          List.getElem?_eq_getElem room,← taken]
        rfl
    · obtain ⟨now',found',rest⟩ := handed.noted j gpu' at_j
      rw [given_succ,if_neg this,Nat.add_zero]
      exact ⟨now',by rw [← found']; simp [place,List.getElem?_set_ne this],rest⟩
  · by_cases this : k = i
    · subst this
      refine ⟨_,List.getElem?_set_self (by rw [handed.put.count]; exact more),?_,?_⟩
      · simp [placed,ErProcessor.putOption]
      · simpa [placed,ErProcessor.putOption] using shown
    · obtain ⟨p,at_i,shows⟩ := handed.shown i (by omega)
      exact ⟨p,by rw [← at_i]; exact List.getElem?_set_ne this,shows⟩

end

def units (nodes : List ErServerNode) (app : ResourceApplication) (j : ℕ) : ℕ := (amount nodes app j).toNat

/-- No node has more processors than units, and at most one has some of its units filled and
others not. -/
structure Filled (nodes : List ErServerNode) (app : ResourceApplication) (spot : ℕ → ℕ) : Prop where
  capacity : ∀ j, given app.processors.length spot j ≤ units nodes app j
  partly : ∀ j j', 0 < given app.processors.length spot j → given app.processors.length spot j < units nodes app j →
    0 < given app.processors.length spot j' → given app.processors.length spot j' < units nodes app j' → j = j'

/-- Each processor shows a GPU index that its node has and had not noted, and no two of one
node show the same. -/
structure Exclusive (nodes : List ErServerNode) (app : ResourceApplication) (result : Result) (spot gpu : ℕ → ℕ) :
    Prop where
  shown : ∀ i < app.processors.length, ∃ p, result.1.processors[i]? = some p ∧ Shows (gpu i) p
  free : ∀ i < app.processors.length, ∃ resource, nodes[spot i]?.bind gpuOf = some resource ∧
    (gpu i : Int) < resource.total ∧ toString (gpu i) ∉ resource.extention.getD []
  distinct : ∀ i < app.processors.length, ∀ j < app.processors.length, spot i = spot j → gpu i = gpu j → i = j

section
variable {nodes : List ErServerNode} {app : ResourceApplication}

private theorem sortNodeList_eq (nodes : List ErServerNode) (app : ResourceApplication) : sortNodeList nodes app =
    fill (units nodes app) (sortNodes nodes app (-1) (List.range nodes.length)) := rfl

/-- The units that the nodes have left together. -/
def allUnits (nodes : List ErServerNode) (app : ResourceApplication) : ℕ :=
  (nodes.map fun node => (getFirstUnAllocatedResource node app).toNat).sum

private theorem sortNodeList_length (nodes : List ErServerNode) (app : ResourceApplication) :
    (sortNodeList nodes app).length = allUnits nodes app := by
  rw [sortNodeList_eq,fill_length,((sortNodes_perm nodes app (-1) _).map _).sum_eq,allUnits]
  refine congrArg List.sum (List.ext_getElem (by simp) fun j less _ => ?_)
  have within : j < nodes.length := by simpa using less
  simp [units,amount,List.getElem?_eq_getElem within]

/-- The node of the `i`-th processor. -/
def spotOf (nodes : List ErServerNode) (app : ResourceApplication) (i : ℕ) : ℕ := (sortNodeList nodes app)[i]?.getD 0

private theorem map_spotOf {n : ℕ} (enough : n ≤ (sortNodeList nodes app).length) :
    (List.range n).map (spotOf nodes app) = (sortNodeList nodes app).take n := by
  refine List.ext_getElem (by simpa using enough) fun i less _ => ?_
  have within : i < (sortNodeList nodes app).length := by simp at less; omega
  simp [spotOf,List.getElem?_eq_getElem within]

private theorem spotOf_filled (enough : app.processors.length ≤ (sortNodeList nodes app).length) :
    Filled nodes app (spotOf nodes app) := by
  have distinct : (sortNodes nodes app (-1) (List.range nodes.length)).Nodup :=
    (sortNodes_perm nodes app (-1) _).nodup_iff.mpr List.nodup_range
  refine ⟨fun j => ?_,fun j j' => ?_⟩
  · rw [given,map_spotOf enough,sortNodeList_eq]
    by_cases known : j ∈ sortNodes nodes app (-1) (List.range nodes.length)
    · exact take_fill_le _ distinct _ known
    · rw [List.count_eq_zero_of_not_mem fun inside => known (mem_fill _ ((List.take_sublist _ _).subset inside))]
      exact Nat.zero_le _
  · rw [given,given,map_spotOf enough,sortNodeList_eq]
    exact take_fill_partly _ distinct _

private theorem mem_sortNodeList {j : ℕ} (member : j ∈ sortNodeList nodes app) : j < nodes.length :=
  List.mem_range.mp ((sortNodes_perm nodes app (-1) _).mem_iff.mp (mem_fill _ member))

private theorem room_of_units (sorted : app.sortByResourceType = Dict.VGPU_CORE)
    (noted : ∀ node ∈ nodes, ∀ gpu, gpuOf node = some gpu → Noted gpu) {j m : ℕ} (more : m < units nodes app j) :
    ∃ gpu, nodes[j]?.bind gpuOf = some gpu ∧ m < (freeIndices gpu).length := by
  cases there : nodes[j]? with
  | none => simp [units,amount,there] at more
  | some node =>
    cases found : gpuOf node with
    | none =>
      have none_left : getFirstUnAllocatedResource node app = 0 := by
        rw [getFirstUnAllocatedResource,sorted]
        unfold gpuOf at found
        rw [found]
      simp [units,amount,there,none_left] at more
    | some gpu =>
      have left : getFirstUnAllocatedResource node app = gpu.getUnAllocatedResource := by
        rw [getFirstUnAllocatedResource,sorted]
        unfold gpuOf at found
        rw [found]
      have below := (noted node (List.mem_of_getElem? there) gpu found).units_le
      simp only [units,amount,there,Option.map_some,Option.getD_some,left] at more
      exact ⟨gpu,by rw [Option.bind_some,found],by omega⟩

private theorem gpuAt_distinct {spot : ℕ → ℕ} {i j : ℕ} {gpu : ErResource} (known : nodes[spot i]?.bind gpuOf = some gpu)
    (same : spot i = spot j) (room_i : given i spot (spot i) < (freeIndices gpu).length)
    (room_j : given j spot (spot j) < (freeIndices gpu).length) (equal : gpuAt nodes spot i = gpuAt nodes spot j) :
    i = j := by
  have distinct : (freeIndices gpu).Nodup := List.nodup_range.filter _
  rw [gpuAt_free known room_i,gpuAt_free (same ▸ known) room_j,distinct.getElem_inj_iff,← same] at equal
  have later {k l : ℕ} (less : k < l) (at_k : spot k = spot i) : given k spot (spot i) < given l spot (spot i) := by
    have one_more := given_mono spot (spot i) (Nat.succ_le_of_lt less)
    rw [Nat.succ_eq_add_one,given_succ,if_pos at_k] at one_more
    omega
  rcases Nat.lt_trichotomy i j with less | here | less
  · exact absurd equal (Nat.ne_of_lt (later less rfl))
  · exact here
  · exact absurd equal (Nat.ne_of_gt (later less same.symm))

private theorem single_normal_iff (setting : Setting) : (singleNodeFirstDispatch setting nodes app).2 = none ↔
    (∀ node ∈ nodes, node.resources ≠ []) ∧
      app.processors.length ≤ allUnits nodes app := by
  unfold singleNodeFirstDispatch
  rw [← sortNodeList_length]
  split
  · rename_i missing
    refine iff_of_false (by simp) fun ⟨all,_⟩ => ?_
    obtain ⟨node,member,none_there⟩ := List.any_eq_true.mp missing
    exact all node member (List.isEmpty_iff.mp none_there)
  · rename_i all
    have rows : ∀ node ∈ nodes, node.resources ≠ [] := by simpa using all
    rw [finish_normal_iff,placeAll_normal_iff,and_iff_right rows]
    constructor
    · intro chosen
      by_contra short
      obtain ⟨i,found,-⟩ := chosen _ (Nat.lt_of_not_ge short)
      rw [Nat.zero_add,List.getElem?_eq_none (Nat.le_refl _)] at found
      cases found
    · intro enough k less
      have within : k < (sortNodeList nodes app).length := by omega
      exact ⟨_,by rw [Nat.zero_add]; exact List.getElem?_eq_getElem within,mem_sortNodeList (List.getElem_mem within)⟩

private theorem single_placed (setting : Setting) (sorted : app.sortByResourceType = Dict.VGPU_CORE)
    (one : ∀ p ∈ app.processors, OneUnit Dict.VGPU_CORE p) (noted : ∀ node ∈ nodes, ∀ gpu, gpuOf node = some gpu → Noted gpu)
    (rows : ∀ node ∈ nodes, node.resources ≠ []) (enough : app.processors.length ≤ allUnits nodes app) :
    let result := singleNodeFirstDispatch setting nodes app
    Assigned nodes app result (spotOf nodes app) ∧
      Exclusive nodes app result (spotOf nodes app) (gpuAt nodes (spotOf nodes app)) := by
  intro result
  have long_enough : app.processors.length ≤ (sortNodeList nodes app).length := by rwa [sortNodeList_length]
  have filled := spotOf_filled long_enough
  -- before each processor its node has a unit and so a GPU for it
  have room {i : ℕ} (less : i < app.processors.length) : ∃ gpu, nodes[spotOf nodes app i]?.bind gpuOf = some gpu ∧
      given i (spotOf nodes app) (spotOf nodes app i) < (freeIndices gpu).length := by
    refine room_of_units sorted noted (Nat.lt_of_lt_of_le ?_ (filled.capacity _))
    refine Nat.lt_of_lt_of_le ?_ (given_mono _ _ (Nat.succ_le_of_lt less))
    rw [Nat.succ_eq_add_one,given_succ,if_pos rfl]
    exact Nat.lt_succ_self _
  have normal : result.2 = none := (single_normal_iff setting).mpr ⟨rows,enough⟩
  have made : result = finish setting (placeAll (fun index => (sortNodeList nodes app)[index]?) app.processors 0
      (begin nodes app)) := by
    simp only [result,singleNodeFirstDispatch]
    rw [if_neg (by simpa using rows)]
  rw [made,finish_normal_iff] at normal
  have round (k : ℕ) (processor : ErProcessor) (i : ℕ) (node : ErServerNode) (a : Attempt)
      (handed : Handed nodes app (spotOf nodes app) k a) (at_k : app.processors[k]? = some processor)
      (chosen : (sortNodeList nodes app)[k]? = some i) (there : a.nodes[i]? = some node) :
      Handed nodes app (spotOf nodes app) (k + 1) (place a k processor i node) := by
    have more := (List.getElem?_eq_some_iff.mp at_k).1
    obtain ⟨gpu,known,free⟩ := room more
    have here : spotOf nodes app k = i := by rw [spotOf,chosen]; rfl
    rw [← here] at there ⊢
    exact handed.next there more (one processor (List.mem_of_getElem? at_k)) known free
  have handed := placeAll_invariant round app.processors 0 rfl (.begin nodes app _) normal
  rw [Nat.zero_add] at handed
  have split : placeAll (fun index => (sortNodeList nodes app)[index]?) app.processors 0 (begin nodes app) =
      (_,none) := Prod.ext rfl normal
  rw [made,split]
  refine ⟨handed.put.assigned setting fun i less => ?_,handed.shown,fun i less => ?_,fun i less j less' same equal => ?_⟩
  · obtain ⟨gpu,known,-⟩ := room less
    cases there : nodes[spotOf nodes app i]? with
    | none => simp [there] at known
    | some node => exact (List.getElem?_eq_some_iff.mp there).1
  · obtain ⟨gpu,known,free⟩ := room less
    have member := List.getElem_mem free
    rw [← gpuAt_free known free,freeIndices,List.mem_filter,List.mem_range] at member
    exact ⟨gpu,known,by omega,by simpa using member.2⟩
  · obtain ⟨gpu,known,free⟩ := room less
    obtain ⟨gpu',known',free'⟩ := room less'
    rw [← same,known] at known'
    cases known'
    exact gpuAt_distinct known same free free' equal

private theorem requestedUnits_gpu {processors : List ErProcessor} (one : ∀ p ∈ processors, OneUnit Dict.VGPU_CORE p) :
    requestedUnits processors Dict.VGPU_CORE = processors.length := by
  unfold requestedUnits
  induction processors with
  | nil => rfl
  | cons p rest ih =>
    rw [List.flatMap_cons,List.map_append,List.sum_append,ih fun q member => one q (List.mem_cons_of_mem _ member),
      one p List.mem_cons_self,List.length_cons,List.sum_singleton]
    omega

private theorem unallocated_le_allUnits (sorted : app.sortByResourceType = Dict.VGPU_CORE) (measured : Measured nodes)
    (row : ∀ node ∈ nodes, (node.resources.filter fun r => r.resourceType = Dict.VGPU_CORE).length ≤ 1) :
    unallocated nodes Dict.VGPU_CORE ≤ allUnits nodes app := by
  have each : ∀ node ∈ nodes, ((node.resources.filter fun r => r.resourceType = Dict.VGPU_CORE).map left).sum ≤
      ((getFirstUnAllocatedResource node app).toNat : Int) := by
    intro node known
    have first : node.resources.find? (fun r => r.resourceType = Dict.VGPU_CORE) =
      (node.resources.filter fun r => r.resourceType = Dict.VGPU_CORE).head? := List.head?_filter.symm
    have least := row node known
    cases rows : node.resources.filter fun r => r.resourceType = Dict.VGPU_CORE with
    | nil => simp
    | cons gpu others =>
      rw [rows,List.length_cons] at least
      have alone : others = [] := List.eq_nil_of_length_eq_zero (by omega)
      rw [alone,List.map_singleton,List.sum_singleton]
      have member := List.mem_filter.mp (rows ▸ List.mem_cons_self : gpu ∈ node.resources.filter fun r =>
        r.resourceType = Dict.VGPU_CORE)
      have inside : gpu ∈ ofType nodes Dict.VGPU_CORE :=
        mem_ofType.mpr ⟨node,known,member.1,by simpa using member.2⟩
      rw [getFirstUnAllocatedResource,sorted,first,rows]
      simp only [List.head?_cons,measured.getUnAllocatedResource inside]
      omega
  unfold unallocated allUnits ofType
  clear measured row
  induction nodes with
  | nil => simp
  | cons node rest ih =>
    rw [List.flatMap_cons,List.map_append,List.sum_append,List.map_cons,List.sum_cons]
    have here := each node List.mem_cons_self
    have later := ih fun n member => each n (List.mem_cons_of_mem _ member)
    omega

private theorem admitted_enough {perNode : Int} {order : List String → List String} {app' : ResourceApplication}
    (sorted : app.sortByResourceType = Dict.VGPU_CORE) (one : ∀ p ∈ app.processors, OneUnit Dict.VGPU_CORE p)
    (measured : Measured nodes) (request : MeasuredRequest app.processors)
    (row : ∀ node ∈ nodes, (node.resources.filter fun r => r.resourceType = Dict.VGPU_CORE).length ≤ 1)
    (exhausted : app.allowExhausted = false) (strategy : app.dispatchStrategy ≠ some Dict.FIX)
    (ordered : ∀ types, (order types).Perm types)
    (accepted : checkResourceEnough perNode order (some nodes) app = .ok (true,app')) :
    app.processors.length ≤ allUnits nodes app := by
  have tests := checkTypes_enough _ |>.mp ((accepted_iff exhausted strategy).mp ⟨app',accepted⟩)
  cases processors : app.processors with
  | nil => exact Nat.zero_le _
  | cons p rest =>
    have known : Dict.VGPU_CORE ∈ requestedTypes app.processors := by
      obtain ⟨r,there⟩ := List.exists_mem_of_length_pos (l := p.resources.filter fun r => r.resourceType = Dict.VGPU_CORE)
        (by simpa using Nat.lt_of_lt_of_eq Nat.one_pos (congrArg List.length (one p (by simp [processors]))).symm)
      simp only [List.mem_filter,decide_eq_true_eq] at there
      rw [requestedTypes,List.mem_dedup,← there.2,processors]
      exact List.mem_map_of_mem (List.mem_flatMap.mpr ⟨p,List.mem_cons_self,there.1⟩)
    obtain ⟨-,-,fits⟩ := tests _ ((ordered _).mem_iff.mpr known)
    rw [requested_eq request,requestedUnits_gpu one] at fits
    have reported : ofType nodes Dict.VGPU_CORE ≠ [] := by
      intro none_there
      rw [globalRemain,none_there,Option.getD_none] at fits
      omega
    rw [globalRemain_eq measured reported,Option.getD_some] at fits
    have most := unallocated_le_allUnits sorted measured row
    rw [← processors]
    omega

/-- The lists of nodes and of GPU indices agree: the processors are placed as they should be
unless a node has no resource row, whose first is read, or the rows that are looked at have too
few units, which admission excludes where each node has one row of GPUs. -/
theorem single_node_first_exact (setting : Setting) (sorted : app.sortByResourceType = Dict.VGPU_CORE)
    (one : ∀ p ∈ app.processors, OneUnit Dict.VGPU_CORE p) (noted : ∀ node ∈ nodes, ∀ gpu, gpuOf node = some gpu → Noted gpu) :
    ((∃ spot gpu, Assigned nodes app (singleNodeFirstDispatch setting nodes app) spot ∧ Filled nodes app spot ∧
        Exclusive nodes app (singleNodeFirstDispatch setting nodes app) spot gpu) ↔
      (∀ node ∈ nodes, node.resources ≠ []) ∧ app.processors.length ≤ allUnits nodes app) ∧
    ∀ perNode order app', Measured nodes → MeasuredRequest app.processors →
      (∀ node ∈ nodes, (node.resources.filter fun r => r.resourceType = Dict.VGPU_CORE).length ≤ 1) →
      app.allowExhausted = false → app.dispatchStrategy ≠ some Dict.FIX → (∀ types, (order types).Perm types) →
      checkResourceEnough perNode order (some nodes) app = .ok (true,app') →
        app.processors.length ≤ allUnits nodes app := by
  refine ⟨⟨?_,?_⟩,fun perNode order app' measured request row exhausted strategy ordered accepted =>
    admitted_enough sorted one measured request row exhausted strategy ordered accepted⟩
  · rintro ⟨spot,gpu,assigned,-,-⟩
    exact (single_normal_iff setting).mp assigned.normal
  · rintro ⟨rows,enough⟩
    obtain ⟨assigned,exclusive⟩ := single_placed setting sorted one noted rows enough
    exact ⟨_,_,assigned,spotOf_filled (by rwa [sortNodeList_length]),exclusive⟩

end

/-- A node with `total` GPUs, of which the first `taken` are taken. -/
def gpuNode (id : Int) (total taken : ℕ) : ErServerNode :=
  ⟨id,"host",[{ resourceType := Dict.VGPU_CORE, total := total, allocated := taken, preAllocated := 0
                extention := some ((List.range taken).map toString) }]⟩

/-- A request for one GPU for each of `n` processors. -/
def gpuRequest (n : ℕ) : ResourceApplication where
  sessionId := "session"
  processors := List.replicate n { processorType := "DeepSpeed", status := "NEW"
                                   resources := [{ resourceType := Dict.VGPU_CORE, allocated := 1 }] }
  sortByResourceType := Dict.VGPU_CORE

theorem single_node_first_three : ∃ spot gpu,
    Assigned [gpuNode 1 2 1,gpuNode 2 4 1] (gpuRequest 4)
      (singleNodeFirstDispatch inOrder [gpuNode 1 2 1,gpuNode 2 4 1] (gpuRequest 4)) spot ∧
    Filled [gpuNode 1 2 1,gpuNode 2 4 1] (gpuRequest 4) spot ∧
    Exclusive [gpuNode 1 2 1,gpuNode 2 4 1] (gpuRequest 4)
      (singleNodeFirstDispatch inOrder [gpuNode 1 2 1,gpuNode 2 4 1] (gpuRequest 4)) spot gpu := by
  refine (single_node_first_exact inOrder rfl (by unfold OneUnit; decide +kernel) ?_).1.mpr
    ⟨by decide +kernel,by decide +kernel⟩
  intro node member gpu found
  rcases List.mem_cons.mp member with rfl | later
  · cases found
    exact ⟨by decide +kernel,by decide⟩
  · cases List.mem_singleton.mp later
    cases found
    exact ⟨by decide +kernel,by decide⟩

/-- The second node has no resource rows; reading the first of them throws, though two GPUs are
left for one processor. -/
theorem single_node_first_no_rows : ¬ ∀ perNode order setting nodes app app',
    checkResourceEnough perNode order (some nodes) app = .ok (true,app') →
    app.sortByResourceType = Dict.VGPU_CORE → (∀ p ∈ app.processors, OneUnit Dict.VGPU_CORE p) →
    (∀ node ∈ nodes, ∀ gpu, gpuOf node = some gpu → Noted gpu) →
      ∃ spot gpu, Assigned nodes app (singleNodeFirstDispatch setting nodes app) spot ∧ Filled nodes app spot ∧
        Exclusive nodes app (singleNodeFirstDispatch setting nodes app) spot gpu := by
  intro all
  obtain ⟨spot,gpu,assigned,-,-⟩ := all 1 id inOrder [gpuNode 1 2 0,⟨2,"host",[]⟩] (gpuRequest 1) (gpuRequest 1)
    (by decide +kernel) rfl (by unfold OneUnit; decide +kernel) (by
      intro node member gpu found
      rcases List.mem_cons.mp member with rfl | later
      · cases found
        exact ⟨by decide +kernel,by decide⟩
      · cases List.mem_singleton.mp later
        cases found)
  exact absurd assigned.normal (by decide +kernel)

end Eggroll.ResourceDispatch
