import Mathlib.Algebra.Order.Ring.Int
import Mathlib.Logic.Equiv.Basic
import Eggroll.NodePlacing
import Eggroll.ResourceAdmission

/-! `randomDispatch`: each node is taken off the shuffled list with the one processor that it
gets, and what it has left is not looked at. -/
namespace Eggroll.ResourceDispatch
open Library ResourceApplication

/-- The node of the `i`-th processor. -/
def spotIn (shuffled : List ℕ) (i : ℕ) : ℕ := shuffled[i]?.getD 0

section
variable {nodes : List ErServerNode} {app : ResourceApplication} {a : Attempt}

private theorem randomPlace_normal_iff (rest : List ErProcessor) (shuffled : List ℕ) (index : ℕ) (a : Attempt)
    (inside : ∀ i ∈ shuffled, i < a.nodes.length) :
    (randomPlace shuffled rest index a).2 = none ↔ rest.length ≤ shuffled.length := by
  induction rest generalizing shuffled index a with
  | nil => cases shuffled <;> simp [randomPlace]
  | cons processor rest ih =>
    cases shuffled with
    | nil => simp [randomPlace]
    | cons i shuffled =>
      have there := List.getElem?_eq_getElem (inside i List.mem_cons_self)
      simp only [randomPlace,there]
      refine (ih shuffled (index + 1) _ ?_).trans ?_
      · exact fun j member => inside j (List.mem_cons_of_mem _ member)
      · rw [List.length_cons,List.length_cons,Nat.add_le_add_iff_right]

theorem randomPlace_put {order : List ℕ} (rest : List ErProcessor) (shuffled : List ℕ) (index : ℕ)
    (these : app.processors.drop index = rest) (others : order.drop index = shuffled)
    (put : Put nodes app (spotIn order) index a) (normal : (randomPlace shuffled rest index a).2 = none) :
    Put nodes app (spotIn order) (index + rest.length) (randomPlace shuffled rest index a).1 := by
  induction rest generalizing shuffled index a with
  | nil => cases shuffled <;> exact put
  | cons processor rest ih =>
    cases shuffled with
    | nil => cases normal
    | cons i shuffled =>
      obtain ⟨first,later⟩ := of_drop_eq_cons these
      obtain ⟨node_first,later'⟩ := of_drop_eq_cons others
      have here : spotIn order index = i := by rw [spotIn,node_first,Option.getD_some]
      have more : index < app.processors.length := (List.getElem?_eq_some_iff.mp first).1
      rw [randomPlace] at normal ⊢
      split at normal
      · cases normal
      · rename_i node there
        have same : a.nodes.set i node = a.nodes := set_same there
        rw [List.length_cons,Nat.add_comm rest.length,← Nat.add_assoc]
        refine ih shuffled (index + 1) later later' ?_ normal
        rw [← here] at there
        let placed := { processor with serverNodeId := some node.id, commandEndpoint := some (node.host,0) }
        have next := put.next there (rfl : node.id = node.id) more (show placed.serverNodeId = some node.id from rfl)
        rw [here,same] at next
        exact next

private theorem random_assigned_iff (setting : Setting) {shuffled : List ℕ} (perm : shuffled.Perm (List.range nodes.length)) :
    Assigned nodes app (randomDispatch setting shuffled nodes app) (spotIn shuffled) ↔
      app.processors.length ≤ nodes.length := by
  have inside : ∀ i ∈ shuffled, i < (begin nodes app).nodes.length := fun i member =>
    List.mem_range.mp (perm.mem_iff.mp member)
  have length : shuffled.length = nodes.length := by rw [perm.length_eq,List.length_range]
  have normal_iff := randomPlace_normal_iff app.processors shuffled 0 (begin nodes app) inside
  rw [length] at normal_iff
  constructor
  · intro assigned
    exact normal_iff.mp (finish_normal_iff.mp assigned.normal)
  · intro enough
    have normal := normal_iff.mpr enough
    have put := randomPlace_put app.processors shuffled 0 rfl rfl (.begin nodes app _) normal
    rw [Nat.zero_add] at put
    have split : randomPlace shuffled app.processors 0 (begin nodes app) = (_,none) := Prod.ext rfl normal
    rw [randomDispatch,split]
    refine put.assigned setting fun i less => ?_
    have within : i < shuffled.length := by omega
    rw [spotIn,List.getElem?_eq_getElem within]
    exact inside _ (List.getElem_mem within)

end

def nodeLeft (node : ErServerNode) (type : String) : Int :=
  ((node.resources.filter fun r => r.resourceType = type).map ErResource.getUnAllocatedResource).sum

def processorsAt (app : ResourceApplication) (spot : ℕ → ℕ) (j : ℕ) : List ErProcessor :=
  ((List.range app.processors.length).filter fun i => spot i = j).filterMap fun i => app.processors[i]?

/-- No node has processors that request more than it has left. -/
def Within (nodes : List ErServerNode) (app : ResourceApplication) (spot : ℕ → ℕ) : Prop :=
  ∀ j node, nodes[j]? = some node → ∀ type ∈ requestedTypes app.processors,
    requestedUnits (processorsAt app spot j) type ≤ max (nodeLeft node type) 0

/-- The node has what the processor requests. -/
def Room (app : ResourceApplication) (p : ErProcessor) (node : ErServerNode) : Prop :=
  ∀ type ∈ requestedTypes app.processors, requestedUnits [p] type ≤ max (nodeLeft node type) 0

section
variable {nodes : List ErServerNode} {app : ResourceApplication} {shuffled : List ℕ}

private theorem spotIn_inj (perm : shuffled.Perm (List.range nodes.length)) {i j : ℕ} (less_i : i < shuffled.length)
    (less_j : j < shuffled.length) (same : spotIn shuffled i = spotIn shuffled j) : i = j := by
  have distinct : shuffled.Nodup := perm.nodup_iff.mpr List.nodup_range
  rw [spotIn,spotIn,List.getElem?_eq_getElem less_i,List.getElem?_eq_getElem less_j] at same
  exact distinct.getElem_inj_iff.mp same

private theorem processorsAt_spotIn (perm : shuffled.Perm (List.range nodes.length))
    (enough : app.processors.length ≤ nodes.length) {i : ℕ} {p : ErProcessor} (at_i : app.processors[i]? = some p) :
    processorsAt app (spotIn shuffled) (spotIn shuffled i) = [p] := by
  have length : shuffled.length = nodes.length := by rw [perm.length_eq,List.length_range]
  have less := (List.getElem?_eq_some_iff.mp at_i).1
  have alone : (List.range app.processors.length).filter (fun k => spotIn shuffled k = spotIn shuffled i) =
      (List.range app.processors.length).filter fun k => k = i := by
    refine List.filter_congr fun k member => decide_eq_decide.mpr ⟨fun same => ?_,fun here => by rw [here]⟩
    have less_k := List.mem_range.mp member
    exact spotIn_inj perm (by omega) (by omega) same
  rw [processorsAt,alone,List.filter_eq,List.count_eq_one_of_mem List.nodup_range (List.mem_range.mpr less)]
  simp [at_i]

theorem within_iff (perm : shuffled.Perm (List.range nodes.length)) (enough : app.processors.length ≤ nodes.length) :
    Within nodes app (spotIn shuffled) ↔ ∀ i p node, app.processors[i]? = some p →
      nodes[spotIn shuffled i]? = some node → Room app p node := by
  constructor
  · intro within i p node at_i there type known
    have below := within _ node there type known
    rwa [processorsAt_spotIn perm enough at_i] at below
  · intro room j node there type known
    by_cases used : ∃ i < app.processors.length, spotIn shuffled i = j
    · obtain ⟨i,less,rfl⟩ := used
      have at_i := List.getElem?_eq_getElem less
      rw [processorsAt_spotIn perm enough at_i]
      exact room i _ node at_i there type known
    · have nothing : processorsAt app (spotIn shuffled) j = [] := by
        rw [processorsAt,List.filter_eq_nil_iff.mpr fun i member here => used
          ⟨i,List.mem_range.mp member,by simpa using here⟩]
        rfl
      rw [nothing]
      exact Int.le_max_right _ _

def swapped (n i j : ℕ) : List ℕ := (List.range n).map (Equiv.swap i j)

private theorem swapped_perm {n i j : ℕ} (less_i : i < n) (less_j : j < n) : (swapped n i j).Perm (List.range n) := by
  refine (List.perm_ext_iff_of_nodup (List.nodup_range.map (Equiv.swap i j).injective) List.nodup_range).mpr fun k => ?_
  rw [List.mem_map,List.mem_range]
  have inside {l : ℕ} (less : l < n) : Equiv.swap i j l < n := by
    rw [Equiv.swap_apply_def]
    split
    · exact less_j
    · split
      · exact less_i
      · exact less
  constructor
  · rintro ⟨l,member,rfl⟩
    exact inside (List.mem_range.mp member)
  · intro less
    exact ⟨Equiv.swap i j k,List.mem_range.mpr (inside less),Equiv.swap_apply_self i j k⟩

private theorem spotIn_swapped {n i j : ℕ} (less : i < n) : spotIn (swapped n i j) i = j := by
  rw [spotIn,swapped,List.getElem?_map,List.getElem?_range less,Option.map_some,Option.getD_some,Equiv.swap_apply_left]

/-- A shuffle serves the application when there are as many nodes as processors and each node
that the shuffle brings up has room for its processor; each shuffle does when each node has room
for each processor. -/
theorem random_exact (setting : Setting) (nodes : List ErServerNode) (app : ResourceApplication) :
    (∀ shuffled : List ℕ, shuffled.Perm (List.range nodes.length) →
      (Assigned nodes app (randomDispatch setting shuffled nodes app) (spotIn shuffled) ∧
          Within nodes app (spotIn shuffled) ↔
        app.processors.length ≤ nodes.length ∧ ∀ i p node, app.processors[i]? = some p →
          nodes[spotIn shuffled i]? = some node → Room app p node)) ∧
    ((∀ shuffled : List ℕ, shuffled.Perm (List.range nodes.length) →
        Assigned nodes app (randomDispatch setting shuffled nodes app) (spotIn shuffled) ∧
          Within nodes app (spotIn shuffled)) ↔
      app.processors.length ≤ nodes.length ∧ ∀ p ∈ app.processors, ∀ node ∈ nodes, Room app p node) := by
  have each (shuffled : List ℕ) (perm : shuffled.Perm (List.range nodes.length)) :
      Assigned nodes app (randomDispatch setting shuffled nodes app) (spotIn shuffled) ∧
          Within nodes app (spotIn shuffled) ↔
        app.processors.length ≤ nodes.length ∧ ∀ i p node, app.processors[i]? = some p →
          nodes[spotIn shuffled i]? = some node → Room app p node := by
    rw [random_assigned_iff setting perm]
    exact and_congr_right fun enough => within_iff perm enough
  refine ⟨each,fun all => ?_,fun ⟨enough,room⟩ shuffled perm => ?_⟩
  · have enough := ((each _ (.refl _)).mp (all _ (.refl _))).1
    refine ⟨enough,fun p known node member => ?_⟩
    obtain ⟨i,at_i⟩ := List.mem_iff_getElem?.mp known
    obtain ⟨j,at_j⟩ := List.mem_iff_getElem?.mp member
    have less_i : i < nodes.length := Nat.lt_of_lt_of_le (List.getElem?_eq_some_iff.mp at_i).1 enough
    have less_j := (List.getElem?_eq_some_iff.mp at_j).1
    -- the shuffle that brings the node up for the processor
    have perm := swapped_perm less_i less_j
    exact ((each _ perm).mp (all _ perm)).2 i p node at_i (by rw [spotIn_swapped less_i]; exact at_j)
  · exact (each shuffled perm).mpr ⟨enough,fun i p node at_i there =>
      room p (List.mem_of_getElem? at_i) node (List.mem_of_getElem? there)⟩

end

theorem random_exact_two : ∀ shuffled : List ℕ, shuffled.Perm (List.range 2) →
    Assigned [coreNode 1 2,coreNode 2 1] (coreRequest 2 Dict.RANDOM)
        (randomDispatch inOrder shuffled [coreNode 1 2,coreNode 2 1] (coreRequest 2 Dict.RANDOM)) (spotIn shuffled) ∧
      Within [coreNode 1 2,coreNode 2 1] (coreRequest 2 Dict.RANDOM) (spotIn shuffled) :=
  (random_exact inOrder [coreNode 1 2,coreNode 2 1] (coreRequest 2 Dict.RANDOM)).2.mpr
    ⟨by decide,by unfold Room; decide +kernel⟩

/-- The one node has room for both processors, but it is taken off the list with the first. -/
theorem random_exhausted : ¬ ∀ perNode order setting nodes app app',
    checkResourceEnough perNode order (some nodes) app = .ok (true,app') →
    ∀ shuffled : List ℕ, shuffled.Perm (List.range nodes.length) →
      Assigned nodes app (randomDispatch setting shuffled nodes app) (spotIn shuffled) ∧
        Within nodes app (spotIn shuffled) := by
  intro all
  obtain ⟨assigned,-⟩ := all 1 id inOrder [coreNode 1 4] (coreRequest 2 Dict.RANDOM) (coreRequest 2 Dict.RANDOM)
    (by decide +kernel) [0] (.refl _)
  exact absurd assigned.normal (by decide +kernel)

end Eggroll.ResourceDispatch
