import Eggroll.Library.PyString
import Eggroll.NodeMoves

/-! Whole changes of processor statuses: each handler stores the status and brings the move to
the node, and every other line leaves the accounts alone. -/
namespace Eggroll.Cluster.NodeAccounts
open Library
open Program hiding call

private theorem line_split {a b : String} (pre des : String) (same : a ++ "_" ++ b = pre ++ "_" ++ des) (left : '_' ∉ pre.toList)
    (right : '_' ∉ des.toList) : a = pre ∧ b = des := by
  have lists := congrArg String.toList same
  simp only [String.toList_append,List.append_assoc] at lists
  have underscore : "_".toList = ['_'] := rfl
  rw [underscore,List.singleton_append,List.singleton_append] at lists
  have counts := congrArg (List.count '_') lists
  simp only [List.count_append,List.count_cons_self,List.count_eq_zero.mpr left,List.count_eq_zero.mpr right] at counts
  have free : '_' ∉ b.toList := List.count_eq_zero.mp (by omega)
  have first := append_delim_inj free right lists
  rw [first] at lists
  have second := List.cons.inj (List.append_cancel_left lists)
  exact ⟨String.toList_injective first,String.toList_injective second.2⟩

def ends : List String := ["FINISHED","STOPPED","KILLED","ERROR"]

theorem processorHandler_cases (useResourceDispatch : Bool) (stored des : String) :
    (stored = "" ∧ des = "NEW" ∧
        processorHandler useResourceDispatch (stored ++ "_" ++ des) = processorCreateHandler useResourceDispatch) ∨
      (stored = "NEW" ∧ des = "RUNNING" ∧
        processorHandler useResourceDispatch (stored ++ "_" ++ des) = processorStateRunningHandler useResourceDispatch) ∨
      (stored = "RUNNING" ∧ des ∈ ends ∧
        processorHandler useResourceDispatch (stored ++ "_" ++ des) = processorStatusRunningStopHandler useResourceDispatch) ∨
      (stored = "NEW" ∧ des ∈ ends ∧
        processorHandler useResourceDispatch (stored ++ "_" ++ des) = processorStateNewStopHandler useResourceDispatch) ∨
      processorHandler useResourceDispatch (stored ++ "_" ++ des) = processorStateInvalidHandler ∨
      processorHandler useResourceDispatch (stored ++ "_" ++ des) = processorStateIgnoreHandler := by
  have apart (pre : String) {lines : List String} (inside : stored ++ "_" ++ des ∈ lines)
      (from_ : ∀ line ∈ lines, ∃ last ∈ ends, line = pre ++ "_" ++ last) (left : '_' ∉ pre.toList) :
      stored = pre ∧ des ∈ ends := by
    obtain ⟨last,member,same⟩ := from_ _ inside
    have free : ∀ last ∈ ends, '_' ∉ last.toList := by decide
    obtain ⟨rfl,rfl⟩ := line_split pre last same left (free last member)
    exact ⟨rfl,member⟩
  unfold processorHandler
  split
  case isTrue is =>
    obtain ⟨rfl,rfl⟩ := line_split "" "NEW" is (by decide) (by decide)
    exact .inl ⟨rfl,rfl,rfl⟩
  split
  case isTrue is =>
    obtain ⟨rfl,rfl⟩ := line_split "NEW" "RUNNING" is (by decide) (by decide)
    exact .inr (.inl ⟨rfl,rfl,rfl⟩)
  split
  case isTrue is =>
    obtain ⟨rfl,member⟩ := apart "RUNNING" is (by decide) (by decide)
    exact .inr (.inr (.inl ⟨rfl,member,rfl⟩))
  split
  case isTrue is =>
    obtain ⟨rfl,member⟩ := apart "NEW" is (by decide) (by decide)
    exact .inr (.inr (.inr (.inl ⟨rfl,member,rfl⟩)))
  split
  · exact .inr (.inr (.inr (.inr (.inl rfl))))
  · exact .inr (.inr (.inr (.inr (.inr rfl))))

section
variable (useResourceDispatch : Bool) (requests : ℕ → Request) (id : ℕ)

abbrev Leads {α : Type} (p : Change α) (A : α → State → Prop) (E : State → Prop) (s : State) : Prop :=
  Does (contract useResourceDispatch id) (service useResourceDispatch requests id) p A E s

end

section
variable {useResourceDispatch : Bool} {requests : ℕ → Request} {id : ℕ} {s t : State}

def Rests (id : ℕ) (s : State) : Prop := s.moving id = none

theorem Rests.stable : (contract useResourceDispatch id).Stable (Rests id) :=
  fun _ _ keeps rests => keeps.moving.trans rests

def never : State → Prop := fun _ => False

theorem never.stable : (contract useResourceDispatch id).Stable never := .const False

theorem rests_lead {α : Type} {p : Change α} {Q : α → Prop} (safe : p.Makes (fun op => harmless op = true) Q)
    (rests : Rests id s) : Leads useResourceDispatch requests id p (fun _ => Rests id) (Rests id) s := by
  refine (Program.Makes.sat (A := Rests id) safe Rests.stable (fun op is s env t answer inv rests served =>
    harmless_step is inv rests (service_cases served).2) rests).mono fun result t _ holds => ?_
  cases result with
  | ok a => exact holds.1
  | error e => exact holds.1

theorem call_harmless {op : Op} (safe : harmless op = true) :
    (call op).Makes (fun op => harmless op = true) fun _ => True := call_makes safe

theorem call_lead {op : Op} (safe : harmless op = true) (rests : Rests id s) :
    Leads useResourceDispatch requests id (call op) (fun _ => Rests id) (Rests id) s := rests_lead (call_harmless safe) rests

private theorem move_lead {op : Op} {A : State → Prop} {B : Ans op → State → Prop}
    (stable : (contract useResourceDispatch id).Stable A) (stables : ∀ a, (contract useResourceDispatch id).Stable (B a))
    (moves : ∀ t, A t → t.moving id ≠ none) (plain : locking op = false)
    (granted : ∀ tables : Tables, tables.refuses op = false)
    (step : ∀ t env u, Inv useResourceDispatch t → A t →
      u = { t.note useResourceDispatch requests id op with tables := t.tables.write op } →
      Inv useResourceDispatch u ∧ (∀ other ≠ id, Keeps other t u) ∧ B (t.tables.answer env op) u)
    (holds : A s) : Leads useResourceDispatch requests id (call op) B never s := by
  refine Does.perform stable stables never.stable holds fun t env u answer inv here served => ?_
  obtain ⟨allowed,served⟩ := service_cases served
  obtain ⟨moved,moving⟩ := Option.ne_none_iff_exists'.mp (moves t here)
  rcases serve_cases plain served with ⟨-,-,fails⟩ | ⟨rfl,is⟩
  · rw [moving_works allowed moving,granted] at fails
    simp at fails
  · exact step t env u inv here is

/-- The request brings these resources to the node, and it has counted some of them. -/
structure Counting (id : ℕ) (moved : Move) (old : Charge) (serverNodeId : Int) (has : List (ResourceKey × Int))
    (done : List ResourceKey) (all counted : List ErResource) (s : State) : Prop where
  inside : Inside id moved old serverNodeId has done (away old moved.target counted) s
  asked : all.map portion = (s.asked moved.processorId).map portion

/-- The change adds to a counter or takes from it, as long as it stays within the node. -/
structure Counts (change : NodeResource → ErResource → NodeResource) (old target : Charge) : Prop where
  node : ∀ row resource, (change row resource).serverNodeId = row.serverNodeId
  type : ∀ row resource, (change row resource).resourceType = row.resourceType
  total : ∀ row resource, (change row resource).total = row.total
  preAllocated : ∀ row resource, 0 ≤ row.preAllocated + shift old target .preAllocated * resource.allocated →
    row.preAllocated + shift old target .preAllocated * resource.allocated ≤ row.total →
    (change row resource).preAllocated = row.preAllocated + shift old target .preAllocated * resource.allocated
  allocated : ∀ row resource, 0 ≤ row.allocated + shift old target .allocated * resource.allocated →
    row.allocated + shift old target .allocated * resource.allocated ≤ row.total →
    (change row resource).allocated = row.allocated + shift old target .allocated * resource.allocated

private theorem preAllocate_counts : Counts .preAllocate .asked .preAllocated := by
  refine ⟨fun _ _ => rfl,fun _ _ => rfl,fun _ _ => rfl,fun row resource low high => ?_,fun row resource low high => ?_⟩ <;>
    simp only [shift,NodeResource.preAllocate,reduceCtorEq,if_true,if_false] at low high ⊢ <;> omega

theorem preAllocateFail_counts : Counts .preAllocateFail .preAllocated .nothing := by
  refine ⟨fun _ _ => rfl,fun _ _ => rfl,fun _ _ => rfl,fun row resource low high => ?_,fun row resource low high => ?_⟩ <;>
    simp only [shift,NodeResource.preAllocateFail,reduceCtorEq,if_true,if_false] at low high ⊢ <;> omega

theorem allocate_counts : Counts .allocate .preAllocated .allocated := by
  refine ⟨fun _ _ => rfl,fun _ _ => rfl,fun _ _ => rfl,fun row resource low high => ?_,fun row resource low high => ?_⟩ <;>
    simp only [shift,NodeResource.allocate,reduceCtorEq,if_true,if_false] at low high ⊢ <;> omega

theorem giveBack_counts : Counts .giveBack .allocated .nothing := by
  refine ⟨fun _ _ => rfl,fun _ _ => rfl,fun _ _ => rfl,fun row resource low high => ?_,fun row resource low high => ?_⟩ <;>
    simp only [shift,NodeResource.giveBack,reduceCtorEq,if_true,if_false] at low high ⊢ <;> omega

section
variable {moved : Move} {old : Charge} {serverNodeId : Int} {has : List (ResourceKey × Int)} {done : List ResourceKey}
  {all counted rest : List ErResource} {resource : ErResource} {change : NodeResource → ErResource → NodeResource}

theorem Counting.keeps (keeps : Keeps id s t) (counting : Counting id moved old serverNodeId has done all counted s) :
    Counting id moved old serverNodeId has done all counted t := by
  refine ⟨counting.inside.keeps keeps,?_⟩
  rw [(keeps.untouched _ counting.inside.moving.moving).asked]
  exact counting.asked

theorem Counting.stable : (contract useResourceDispatch id).Stable (Counting id moved old serverNodeId has done all counted) :=
  fun _ _ => Counting.keeps

private theorem amount_part (counted rest : List ErResource) (heavy : ∀ resource ∈ counted ++ rest, 0 ≤ resource.allocated)
    (resourceType : String) :
    0 ≤ amount counted resourceType ∧ amount counted resourceType ≤ amount (counted ++ rest) resourceType := by
  have first := amount_nonneg (fun resource inside => heavy resource (List.mem_append_left _ inside)) resourceType
  have second := amount_nonneg (fun resource inside => heavy resource (List.mem_append_right _ inside)) resourceType
  rw [amount_append]
  omega

theorem Counting.fits (inv : Inv useResourceDispatch s)
    (counting : Counting id moved old serverNodeId has done all counted s) (split : all = counted ++ resource :: rest) :
    ∃ row, s.tables.nodeResource serverNodeId resource.resourceType = some row ∧ ∀ class_, class_ ≠ .nothing →
      0 ≤ charged s serverNodeId resource.resourceType class_ +
          away old moved.target (counted ++ [resource]) class_ resource.resourceType ∧
        charged s serverNodeId resource.resourceType class_ +
          away old moved.target (counted ++ [resource]) class_ resource.resourceType ≤ row.total := by
  have moving := counting.inside.moving
  obtain ⟨row,there,moves⟩ := inv.moves id moved moving.moving
  have node : row.serverNodeId = serverNodeId := by
    obtain ⟨other,inside,same,node⟩ := moving.row
    rw [processor_unique inv.distinct there inside (moves.processorId.trans same.symm)]
    exact node
  have asks (given : ErResource) (member : given ∈ all) : 0 ≤ given.allocated ∧
      ∃ node, s.tables.nodeResource serverNodeId given.resourceType = some node ∧
        s.admitted serverNodeId given.resourceType ≤ node.total := by
    have inside := List.mem_map_of_mem (f := portion) member
    rw [counting.asked] at inside
    obtain ⟨other,asked,same⟩ := List.mem_map.mp inside
    obtain ⟨type,allocated⟩ := Prod.mk.inj same
    rw [← type,← allocated,← node]
    exact (inv.row row there).asked moves.charged other (by rw [moves.processorId]; exact asked)
  obtain ⟨-,stored,found,below⟩ := asks resource (by rw [split]; simp)
  have weight : amount all resource.resourceType = amount (s.asked row.processorId) resource.resourceType := by
    rw [moves.processorId]
    exact amount_portion counting.asked _
  have together : all = (counted ++ [resource]) ++ rest := by rw [split]; simp
  obtain ⟨low,high⟩ := amount_part (counted ++ [resource]) rest
    (fun given member => (asks given (together ▸ member)).1) resource.resourceType
  rw [← together,weight] at high
  have heavy (other : SessionProcessor) (member : other ∈ s.tables.processors)
      (counts : s.charge other.processorId ≠ .nothing) : 0 ≤ amount (s.asked other.processorId) resource.resourceType :=
    amount_nonneg (fun given inside => ((inv.row other member).asked counts given inside).1) _
  refine ⟨stored,found,fun class_ some_class => ?_⟩
  have charge : s.charge row.processorId = old := by
    rw [moves.processorId]
    exact moving.charge
  have counted_heavy (other : SessionProcessor) (member : other ∈ s.tables.processors)
      (counts : decide (other.serverNodeId = serverNodeId ∧ s.charge other.processorId = class_) = true) :
      0 ≤ amount (s.asked other.processorId) resource.resourceType := by
    refine heavy other member fun nothing => ?_
    rw [nothing] at counts
    exact some_class (of_decide_eq_true counts).2.symm
  have admitted_heavy (other : SessionProcessor) (member : other ∈ s.tables.processors)
      (counts : decide (other.serverNodeId = serverNodeId ∧ s.charge other.processorId ≠ .nothing) = true) :
      0 ≤ amount (s.asked other.processorId) resource.resourceType := heavy other member (of_decide_eq_true counts).2
  have more (other : SessionProcessor) (_ : other ∈ s.tables.processors)
      (counts : decide (other.serverNodeId = serverNodeId ∧ s.charge other.processorId = class_) = true) :
      decide (other.serverNodeId = serverNodeId ∧ s.charge other.processorId ≠ .nothing) = true := by
    obtain ⟨here,is⟩ := of_decide_eq_true counts
    exact decide_eq_true ⟨here,by rw [is]; exact some_class⟩
  have charged_low : 0 ≤ charged s serverNodeId resource.resourceType class_ := weigh_nonneg counted_heavy
  have charged_high : charged s serverNodeId resource.resourceType class_ ≤ s.admitted serverNodeId resource.resourceType :=
    weigh_mono more admitted_heavy
  simp only [away,shift]
  by_cases to_class : moved.target = class_
  · by_cases from_class : old = class_
    · simp only [to_class,from_class,if_true]
      omega
    · have room : charged s serverNodeId resource.resourceType class_ +
          amount (s.asked row.processorId) resource.resourceType ≤ s.admitted serverNodeId resource.resourceType :=
        weigh_add_le more admitted_heavy there (decide_eq_false fun counts => from_class (charge.symm.trans counts.2))
          (decide_eq_true ⟨node,moves.charged⟩)
      simp only [to_class,from_class,if_true,if_false]
      omega
  · by_cases from_class : old = class_
    · have own : amount (s.asked row.processorId) resource.resourceType ≤ charged s serverNodeId resource.resourceType class_ :=
        le_weigh counted_heavy there (decide_eq_true ⟨node,charge.trans from_class⟩)
      simp only [to_class,from_class,if_true,if_false]
      omega
    · simp only [to_class,from_class,if_false]
      omega

/-- The rows that have been read or written are the stored ones. -/
structure Knowing (id : ℕ) (moved : Move) (old : Charge) (serverNodeId : Int) (has : List (ResourceKey × Int))
    (done : List ResourceKey) (all counted : List ErResource) (resourceMap : List NodeResource) (s : State) : Prop where
  counting : Counting id moved old serverNodeId has done all counted s
  known : ∀ row ∈ resourceMap, row.serverNodeId = serverNodeId ∧
    s.tables.nodeResource serverNodeId row.resourceType = some row

variable {resourceMap rows : List NodeResource} {row : NodeResource}

theorem Knowing.moves (knowing : Knowing id moved old serverNodeId has done all counted resourceMap s) :
    s.moving id ≠ none := by
  rw [knowing.counting.inside.moving.moving]
  exact Option.some_ne_none moved

theorem Knowing.keeps (keeps : Keeps id s t) (knowing : Knowing id moved old serverNodeId has done all counted resourceMap s) :
    Knowing id moved old serverNodeId has done all counted resourceMap t := by
  refine ⟨knowing.counting.keeps keeps,fun row member => ?_⟩
  rw [(keeps.frozen serverNodeId knowing.counting.inside.owner).node]
  exact knowing.known row member

def Found (id : ℕ) (moved : Move) (old : Charge) (serverNodeId : Int) (has : List (ResourceKey × Int))
    (done : List ResourceKey) (all counted : List ErResource) (resourceMap : List NodeResource) (resourceType : String)
    (row : NodeResource) (s : State) : Prop :=
  Knowing id moved old serverNodeId has done all counted resourceMap s ∧
    s.tables.nodeResource serverNodeId resourceType = some row

theorem Found.keeps {resourceType : String} (keeps : Keeps id s t)
    (found : Found id moved old serverNodeId has done all counted resourceMap resourceType row s) :
    Found id moved old serverNodeId has done all counted resourceMap resourceType row t :=
  ⟨found.1.keeps keeps,((keeps.frozen serverNodeId found.1.counting.inside.owner).node _).trans found.2⟩

theorem Found.stable (resourceType : String) (row : NodeResource) : (contract useResourceDispatch id).Stable
    (Found id moved old serverNodeId has done all counted resourceMap resourceType row) := fun _ _ => Found.keeps

theorem Knowing.stable : (contract useResourceDispatch id).Stable
    (Knowing id moved old serverNodeId has done all counted resourceMap) := fun _ _ => Knowing.keeps

private theorem updateAll_lead (subset : rows ⊆ resourceMap) (inv : Inv useResourceDispatch s)
    (knowing : Knowing id moved old serverNodeId has done all counted resourceMap s) :
    Leads useResourceDispatch requests id (updateAll rows)
      (fun _ => Knowing id moved old serverNodeId has done all counted resourceMap) never s := by
  induction rows generalizing s with
  | nil => exact .pure Knowing.stable knowing
  | cons row rest ih =>
    obtain ⟨member,others⟩ := List.cons_subset.mp subset
    refine (move_lead Knowing.stable (fun _ => Knowing.stable) (fun _ knowing => knowing.moves) rfl (fun _ => rfl)
      (fun t env u inv knowing is => ?_) knowing).bind inv never.stable fun _ t inv knowing => ih others inv knowing
    obtain ⟨node,found⟩ := knowing.known row member
    rw [← node] at found
    obtain ⟨inv',keeps,-⟩ := recount_step inv found is
    exact ⟨inv',fun other _ => keeps other,knowing.keeps (keeps id)⟩

private theorem getNodeResource_lead (inv : Inv useResourceDispatch s) (split : all = counted ++ resource :: rest)
    (knowing : Knowing id moved old serverNodeId has done all counted resourceMap s) :
    Leads useResourceDispatch requests id (getNodeResource resourceMap serverNodeId resource.resourceType)
      (fun row => Found id moved old serverNodeId has done all counted resourceMap resource.resourceType row) never s := by
  unfold getNodeResource
  cases kept : resourceMap.find? fun row => row.resourceType = resource.resourceType with
  | some row =>
    have type : row.resourceType = resource.resourceType := by simpa using List.find?_some kept
    refine .pure (Found.stable _ _) ⟨knowing,?_⟩
    rw [← type]
    exact (knowing.known row (List.mem_of_find?_eq_some kept)).2
  | none =>
    refine Does.bind (move_lead (B := fun found t => ∃ row, found = some row ∧
        Found id moved old serverNodeId has done all counted resourceMap resource.resourceType row t)
      Knowing.stable (fun found s t keeps holds => ?_) (fun _ knowing => knowing.moves) rfl (fun _ => rfl)
      (fun t env u inv knowing is => ?_) knowing) inv never.stable fun found t inv holds => ?_
    · obtain ⟨row,is,found⟩ := holds
      exact ⟨row,is,found.keeps keeps⟩
    · obtain ⟨row,found,-⟩ := knowing.counting.fits inv split
      have same : u = t := is
      rw [same]
      exact ⟨inv,fun other _ => .refl other t,row,found,knowing,found⟩
    · obtain ⟨row,rfl,found⟩ := holds
      exact .pure (Found.stable _ _) found

private theorem count_lead (counts : Counts change old moved.target) (split : all = counted ++ resource :: rest)
    (found : Found id moved old serverNodeId has done all counted resourceMap resource.resourceType row s) :
    Leads useResourceDispatch requests id (call (.updateNodeResource (change row resource)))
      (fun _ => Knowing id moved old serverNodeId has done all (counted ++ [resource])
        (change row resource :: resourceMap.filter fun row => row.resourceType ≠ resource.resourceType)) never s := by
  refine move_lead (Found.stable resource.resourceType row) (fun _ => Knowing.stable) (fun _ found => found.1.moves) rfl
    (fun _ => rfl) (fun t env u inv here is => ?_) found
  obtain ⟨knowing,stored⟩ := here
  obtain ⟨-,node,type⟩ := nodeResource_spec stored
  obtain ⟨other,found',fits⟩ := knowing.counting.fits inv split
  cases stored.symm.trans found'
  have inside := knowing.counting.inside
  have sum : amount (counted ++ [resource]) resource.resourceType =
      amount counted resource.resourceType + resource.allocated := by
    rw [amount_append]
    simp [amount,weigh_cons]
  have pre_is := inside.books.preAllocated resource.resourceType row stored
  have allocated_is := inside.books.allocated resource.resourceType row stored
  obtain ⟨pre_low,pre_high⟩ := fits .preAllocated nofun
  obtain ⟨allocated_low,allocated_high⟩ := fits .allocated nofun
  simp only [away,sum,Int.mul_add] at pre_is allocated_is pre_low pre_high allocated_low allocated_high
  have pre := counts.preAllocated row resource (by omega) (by omega)
  have allocated := counts.allocated row resource (by omega) (by omega)
  have total := counts.total row resource
  rw [← type] at stored
  obtain ⟨inv',keeps,inside'⟩ := count_step (away old moved.target (counted ++ [resource])) inv inside stored
    ((counts.node row resource).trans node) (counts.type row resource) total
    ⟨by rw [pre,total]; omega,by rw [allocated,total]; omega⟩ is
    (by rw [pre,type]; simp only [away,sum,Int.mul_add]; omega)
    (by rw [allocated,type]; simp only [away,sum,Int.mul_add]; omega)
    fun class_ resourceType other => by
      have none : amount [resource] resourceType = 0 := amount_absent fun given member is =>
        other (type ▸ (List.mem_singleton.mp member ▸ is).symm)
      simp only [away,amount_append]
      rw [none,Int.add_zero]
  refine ⟨inv',keeps,⟨inside',by rw [is]; exact knowing.counting.asked⟩,fun given member => ?_⟩
  have written (resourceType : String) := node_written t.tables (change row resource) serverNodeId resourceType
  rw [is]
  rcases List.mem_cons.mp member with rfl | member
  · refine ⟨(counts.node row resource).trans node,(written _).trans ?_⟩
    rw [if_pos ⟨(counts.node row resource).trans node,rfl⟩,counts.type,stored]
    rfl
  · obtain ⟨before,other⟩ := List.mem_filter.mp member
    obtain ⟨here,found⟩ := knowing.known given before
    refine ⟨here,(written _).trans ?_⟩
    rw [if_neg fun same => ?_]
    · exact found
    · rw [counts.type,type] at same
      simp only [ne_eq,decide_not,Bool.not_eq_true',decide_eq_false_iff_not] at other
      exact other same.2.symm

private theorem eachResource_lead (counts : Counts change old moved.target) (inv : Inv useResourceDispatch s)
    (split : all = counted ++ rest)
    (knowing : Knowing id moved old serverNodeId has done all counted resourceMap s) :
    Leads useResourceDispatch requests id (eachResource change serverNodeId resourceMap rest)
      (fun _ => Counting id moved old serverNodeId has done all all) never s := by
  induction rest generalizing counted resourceMap s with
  | nil =>
    rw [List.append_nil] at split
    subst split
    exact .pure Counting.stable knowing.counting
  | cons resource rest ih =>
    refine (getNodeResource_lead inv split knowing).bind inv never.stable fun row t inv found => ?_
    refine Does.bind (p := updateAll _) ?_ inv never.stable fun _ t inv knowing =>
      ih inv (split.trans (List.append_cons _ _ _)) knowing
    exact (count_lead counts split found).bind inv never.stable fun _ t inv knowing =>
      updateAll_lead (List.subset_cons_self _ _) inv knowing

/-- The row that is stored of a resource. -/
def saved (erProcessor : ErProcessor) (resource : ErResource) : ProcessorResource :=
  ⟨erProcessor.id,erProcessor.sessionId,intValue erProcessor.serverNodeId,resource.resourceType,resource.allocated,
    resource.extention,resource.status⟩

theorem Counting.moves (counting : Counting id moved old serverNodeId has done all counted s) : s.moving id ≠ none := by
  rw [counting.inside.moving.moving]
  exact Option.some_ne_none moved

private theorem saveResources_lead {erProcessor : ErProcessor} (mine : erProcessor.id = moved.processorId)
    (inv : Inv useResourceDispatch s) (counting : Counting id moved .asked serverNodeId has done all all s) :
    Leads useResourceDispatch requests id (saveResources erProcessor rest) (fun _ => Counting id moved .asked serverNodeId
      (has ++ rest.map fun resource => kept (saved erProcessor resource).toErResource) done all all) never s := by
  induction rest generalizing has s with
  | nil =>
    rw [List.map_nil,List.append_nil]
    exact .pure Counting.stable counting
  | cons resource rest ih =>
    have first : Leads useResourceDispatch requests id (call (.saveResource (saved erProcessor resource)))
        (fun _ => Counting id moved .asked serverNodeId (has ++ [kept (saved erProcessor resource).toErResource]) done all all)
        never s := by
      refine move_lead Counting.stable (fun _ => Counting.stable) (fun _ counting => counting.moves) rfl (fun _ => rfl)
        (fun t env u inv counting is => ?_) counting
      obtain ⟨inv',keeps,inside⟩ := save_step inv counting.inside (saved erProcessor resource) mine is
      exact ⟨inv',keeps,inside,by rw [is]; exact counting.asked⟩
    refine first.bind inv never.stable fun _ t inv counting => ?_
    rw [List.map_cons,List.append_cons]
    exact ih inv counting

private theorem updateResources_lead {status : String} (kept : status ≠ "return") (inv : Inv useResourceDispatch s)
    (counting : Counting id moved old serverNodeId has done all all s) :
    Leads useResourceDispatch requests id (updateResources status rest)
      (fun _ => Counting id moved old serverNodeId has done all all) never s := by
  induction rest generalizing s with
  | nil => exact .pure Counting.stable counting
  | cons resource rest ih =>
    refine (move_lead Counting.stable (fun _ => Counting.stable) (fun _ counting => counting.moves) rfl (fun _ => rfl)
      (fun t env u inv counting is => ?_) counting).bind inv never.stable fun _ t inv counting => ih inv counting
    rw [State.note,if_neg kept] at is
    obtain ⟨inv',keeps⟩ := remark_step inv resource.key status is
    exact ⟨inv',fun other _ => keeps other,counting.keeps (keeps id)⟩

private theorem returnResources_lead (target : moved.target = .nothing) (own : done ++ rest.map ErResource.key = has.map Prod.fst)
    (inv : Inv useResourceDispatch s) (counting : Counting id moved old serverNodeId has done all all s) :
    Leads useResourceDispatch requests id (updateResources "return" rest)
      (fun _ => Counting id moved old serverNodeId has (has.map Prod.fst) all all) never s := by
  induction rest generalizing done s with
  | nil =>
    rw [List.map_nil,List.append_nil] at own
    rw [← own]
    exact .pure Counting.stable counting
  | cons resource rest ih =>
    rw [List.map_cons] at own
    have first : Leads useResourceDispatch requests id (call (.updateResource resource.key "return"))
        (fun _ => Counting id moved old serverNodeId has (done ++ [resource.key]) all all) never s := by
      refine move_lead Counting.stable (fun _ => Counting.stable) (fun _ counting => counting.moves) rfl (fun _ => rfl)
        (fun t env u inv counting is => ?_) counting
      have mine : resource.key.processorId = some moved.processorId := by
        have member : resource.key ∈ has.map Prod.fst := by rw [← own]; simp
        rw [← counting.inside.moving.resources,resources,List.map_map,List.map_map] at member
        obtain ⟨row,inside,same⟩ := List.mem_map.mp member
        rw [← same]
        exact congrArg some (of_decide_eq_true (List.mem_filter.mp inside).2)
      obtain ⟨inv',keeps,inside⟩ := return_step inv counting.inside target mine
        ⟨rest.map ErResource.key,by rw [← own,List.append_assoc]; rfl⟩ is
      exact ⟨inv',keeps,inside,by rw [is]; exact counting.asked⟩
    refine first.bind inv never.stable fun _ t inv counting => ih ?_ inv counting
    rw [List.append_assoc]
    exact own

/-- Before the lock of the node, with these resources. -/
structure Bringing (id : ℕ) (moved : Move) (old : Charge) (serverNodeId : Int) (has : List (ResourceKey × Int))
    (all : List ErResource) (s : State) : Prop where
  moving : Moving id moved old serverNodeId has [] s
  outside : Outside id s
  asked : all.map portion = (s.asked moved.processorId).map portion

/-- What is noted and returned is as the move wants it. -/
structure Noted (moved : Move) (has : List (ResourceKey × Int)) (done : List ResourceKey) (all : List ErResource) : Prop where
  stored : (has.map fun pair => (pair.1.resourceType,pair.2)) = all.map portion
  returned : moved.target = .nothing → done = has.map Prod.fst
  kept : moved.target ≠ .nothing → done = []

theorem Bringing.keeps (keeps : Keeps id s t) (bringing : Bringing id moved old serverNodeId has all s) :
    Bringing id moved old serverNodeId has all t := by
  refine ⟨bringing.moving.keeps keeps,bringing.outside.keeps keeps,?_⟩
  rw [(keeps.untouched _ bringing.moving.moving).asked]
  exact bringing.asked

theorem Bringing.stable : (contract useResourceDispatch id).Stable (Bringing id moved old serverNodeId has all) :=
  fun _ _ => Bringing.keeps

private theorem enter_lead (bringing : Bringing id moved old serverNodeId has all s) :
    Leads useResourceDispatch requests id (call (.lock .nodeResource (toString serverNodeId)))
      (fun _ => Counting id moved old serverNodeId has [] all []) never s := by
  refine Does.perform Bringing.stable (fun _ => Counting.stable) never.stable bringing fun t env u answer inv here served => ?_
  obtain ⟨lock,locked,rfl,rfl⟩ := lock_served (service_cases served).2
  obtain ⟨inv',keeps⟩ := lock_step inv locked
  have inside := enter_step inv here.moving here.outside locked
  have nothing : nowhere = away old moved.target [] := by
    funext on resourceType
    exact (Int.mul_zero _).symm
  rw [nothing] at inside
  exact ⟨inv',keeps,inside,here.asked⟩

private theorem leave_lead (noted : Noted moved has done all) (counting : Counting id moved old serverNodeId has done all all s) :
    Leads useResourceDispatch requests id (call (.unLock .nodeResource (toString serverNodeId)))
      (fun _ => Rests id) (Rests id) s := by
  refine Does.perform Counting.stable (fun _ => Rests.stable) Rests.stable counting fun t env u answer inv here served => ?_
  have inside := here.inside
  rcases unlock_served (service_cases served).2 with ⟨-,-,refused⟩ | ⟨lock,unlocked,is,rfl⟩
  · have held := ReentrantLock.unlock_isSome.mpr (ReentrantLock.holdCount_pos.mpr inside.owner)
    rw [refused] at held
    cases held
  · simp only [State.note,inside.moving.moving] at is
    have stored : (resources t.tables moved.processorId).map portion = (t.asked moved.processorId).map portion := by
      have by_kept := congrArg (List.map fun pair => (pair.1.resourceType,pair.2)) inside.moving.resources
      rw [List.map_map] at by_kept
      exact by_kept.trans (noted.stored.trans here.asked)
    exact leave_step inv inside (amount_portion here.asked) stored noted.returned noted.kept unlocked is

private theorem changeResource_lead {erProcessor : ErProcessor} {rows : Change Unit} {has' : List (ResourceKey × Int)}
    (counts : Counts change old moved.target) (noted : Noted moved has' done erProcessor.resources)
    (follows : ∀ t, Inv useResourceDispatch t →
      Counting id moved old erProcessor.serverNodeId has [] erProcessor.resources erProcessor.resources t →
      Leads useResourceDispatch requests id rows
        (fun _ => Counting id moved old erProcessor.serverNodeId has' done erProcessor.resources erProcessor.resources) never t)
    (inv : Inv useResourceDispatch s)
    (bringing : Bringing id moved old erProcessor.serverNodeId has erProcessor.resources s) :
    Leads useResourceDispatch requests id (changeResource change erProcessor rows) (fun _ => Rests id) (Rests id) s := by
  refine Does.bind ((enter_lead bringing).mono (fun _ _ _ counting => counting) fun _ _ => False.elim) inv Rests.stable
    fun _ t inv counting => ?_
  have inside : Leads useResourceDispatch requests id (do
        eachResource change erProcessor.serverNodeId [] erProcessor.resources
        rows)
      (fun _ => Counting id moved old erProcessor.serverNodeId has' done erProcessor.resources erProcessor.resources)
      never t :=
    (eachResource_lead counts inv (List.nil_append _).symm ⟨counting,fun _ member => absurd member List.not_mem_nil⟩).bind inv
      never.stable fun _ t inv counting => follows t inv counting
  exact inside.tryFinally inv (fun _ => Rests.stable) Rests.stable (fun _ t _ counting => leave_lead noted counting)
    fun _ _ => False.elim

/-- The move has begun, and the processor was created with these resources. -/
structure Started (id : ℕ) (moved : Move) (old : Charge) (serverNodeId : Int) (has : List (ResourceKey × Int))
    (asks : List ErResource) (s : State) : Prop where
  moving : Moving id moved old serverNodeId has [] s
  outside : Outside id s
  asked : s.asked moved.processorId = asks

variable {asks : List ErResource} {erProcessor : ErProcessor} {context : Context} {pre des : String}

theorem Started.keeps (keeps : Keeps id s t) (started : Started id moved old serverNodeId has asks s) :
    Started id moved old serverNodeId has asks t :=
  ⟨started.moving.keeps keeps,started.outside.keeps keeps,
    (keeps.untouched _ started.moving.moving).asked.trans started.asked⟩

theorem Started.stable : (contract useResourceDispatch id).Stable (Started id moved old serverNodeId has asks) :=
  fun _ _ => Started.keeps

theorem Started.moves (started : Started id moved old serverNodeId has asks s) : s.moving id ≠ none := by
  rw [started.moving.moving]
  exact Option.some_ne_none moved

/-- The resources that are taken to the node: the given ones, or else the stored ones. -/
def Taken (erProcessor : ErProcessor) (has : List (ResourceKey × Int)) (all : List ErResource) : Prop :=
  all = erProcessor.resources ∧ all ≠ [] ∨ erProcessor.resources = [] ∧ all.map kept = has

private theorem loadResources_lead (mine : erProcessor.id = moved.processorId) (inv : Inv useResourceDispatch s)
    (started : Started id moved old serverNodeId has asks s) :
    Leads useResourceDispatch requests id (loadResources erProcessor) (fun loaded t =>
      (∃ all, Taken erProcessor has all ∧ loaded = { erProcessor with resources := all }) ∧
        Started id moved old serverNodeId has asks t) never s := by
  have stable (p : Prop) : (contract useResourceDispatch id).Stable
      fun t => p ∧ Started id moved old serverNodeId has asks t := .and (.const p) Started.stable
  unfold loadResources
  split
  case isFalse some_resource => exact .pure (stable _) ⟨⟨_,.inl ⟨rfl,some_resource⟩,rfl⟩,started⟩
  case isTrue empty =>
    refine Does.bind (move_lead (B := fun rows t => (rows.map ProcessorResource.toErResource).map kept = has ∧
        Started id moved old serverNodeId has asks t) Started.stable (fun _ => stable _) (fun _ started => started.moves) rfl
      (fun _ => rfl) (fun t env u inv started is => ?_) started) inv never.stable fun rows t _ read => ?_
    · have same : u = t := is
      rw [same]
      refine ⟨inv,fun other _ => .refl other t,?_,started⟩
      rw [mine]
      exact started.moving.resources
    · exact .pure (stable _) ⟨⟨_,.inr ⟨empty,read.1⟩,rfl⟩,read.2⟩

private theorem submitPost_lead {T : Type} {handler : StateHandler T} {result : Context × T} (rests : Rests id s) :
    Leads useResourceDispatch requests id (AbstractStateMachine.submitPost handler result)
      (fun _ => Rests id) (Rests id) s := by
  have safe : (AbstractStateMachine.submitPost handler result).Makes (fun op => harmless op = true) fun _ => True := by
    unfold AbstractStateMachine.submitPost
    split
    · exact .bind (call_harmless rfl) fun _ _ => .pure trivial
    · exact .pure trivial
  exact rests_lead safe rests

private theorem resource_lead (unbroken : context.isBreak = false) (line : pre ++ "_" ++ des ∈ resourceLines)
    (mine : erProcessor.id = moved.processorId)
    (acts : ∀ all t, Taken erProcessor has all → Inv useResourceDispatch t → Started id moved old serverNodeId has asks t →
      Leads useResourceDispatch requests id (onStateLine { erProcessor with resources := all } (pre ++ "_" ++ des))
        (fun _ => Rests id) (Rests id) t)
    (inv : Inv useResourceDispatch s) (started : Started id moved old serverNodeId has asks s) :
    Leads useResourceDispatch requests id (resourceStateMechine.changeStatus context erProcessor pre des false)
      (fun _ => Rests id) (Rests id) s := by
  have handler : resourceStateMechine.handler (pre ++ "_" ++ des) = some resourceStateHandler := if_pos line
  have lock (key : String) : Leads useResourceDispatch requests id (call (.lock .resource key))
      (fun _ => Started id moved old serverNodeId has asks) (Rests id) s := by
    refine Does.perform Started.stable (fun _ => Started.stable) Rests.stable started fun t env u answer inv here served => ?_
    obtain ⟨lock,locked,rfl,rfl⟩ := lock_served (service_cases served).2
    obtain ⟨inv',keeps⟩ := lock_step inv locked
    refine ⟨inv',keeps,⟨here.moving.moving,here.moving.charge,here.moving.row,here.moving.resources,here.moving.returned⟩,
      fun key => ?_,here.asked⟩
    rw [setLock_other fun same => by cases same.1]
    exact here.outside key
  have built : resourceStateMechine.buildStateChangeLine context erProcessor pre des =
      pure ((context,erProcessor),pre ++ "_" ++ des) := rfl
  rw [AbstractStateMachine.changeStatus,built,pure_bind]
  dsimp only
  rw [handler]
  refine Does.tryFinally (A := fun _ => Rests id) (E := Rests id) ?_ inv (fun _ => Rests.stable) Rests.stable
    (fun _ t _ rests => call_lead rfl rests) fun t _ rests => call_lead rfl rests
  refine (lock _).bind inv Rests.stable fun _ t inv started => ?_
  have handled : Leads useResourceDispatch requests id (resourceStateHandler.handle context erProcessor pre des)
      (fun _ => Rests id) (Rests id) t := by
    refine Does.bind ((loadResources_lead mine inv started).mono (fun _ _ _ holds => holds) fun _ _ => False.elim) inv
      Rests.stable fun loaded t inv holds => ?_
    obtain ⟨⟨all,taken,rfl⟩,started⟩ := holds
    exact (acts all t taken inv started).bind inv Rests.stable fun _ t _ rests => .pure Rests.stable rests
  have prepared : resourceStateHandler.prepare context erProcessor pre des = pure (context,erProcessor) := rfl
  rw [AbstractStateMachine.locked,prepared,pure_bind,if_neg (by simp [unbroken])]
  refine Does.bind (A := fun _ => Rests id) ?_ inv Rests.stable fun result t _ rests => submitPost_lead rests
  exact handled.bind inv Rests.stable fun result t inv rests => .pure Rests.stable rests

theorem preAllocated_lead (unbroken : context.isBreak = false) (mine : erProcessor.id = moved.processorId)
    (target : moved.target = .preAllocated) (inv : Inv useResourceDispatch s)
    (started : Started id moved .asked erProcessor.serverNodeId [] erProcessor.resources s) :
    Leads useResourceDispatch requests id (resourceStateMechine.changeStatus context erProcessor "init" "pre_allocated" false)
      (fun _ => Rests id) (Rests id) s := by
  refine resource_lead unbroken (by decide) mine (fun all t taken inv started => ?_) inv started
  have is_own : all = erProcessor.resources := by
    rcases taken with ⟨is,-⟩ | ⟨empty,none⟩
    · exact is
    · rw [empty]
      exact List.map_eq_nil_iff.mp none
  subst is_own
  have counts : Counts .preAllocate .asked moved.target := by
    rw [target]
    exact preAllocate_counts
  have noted : Noted moved ([] ++ erProcessor.resources.map fun resource => kept (saved erProcessor resource).toErResource)
      [] erProcessor.resources := by
    refine ⟨?_,fun nothing => ?_,fun _ => rfl⟩
    · rw [List.nil_append,List.map_map]
      rfl
    · rw [target] at nothing
      cases nothing
  exact changeResource_lead counts noted (fun t inv counting => saveResources_lead mine inv counting) inv
    ⟨started.moving,started.outside,by rw [started.asked]⟩

private theorem reallocated_lead {status : String} (unbroken : context.isBreak = false) (line : pre ++ "_" ++ des ∈ resourceLines)
    (acts : ∀ data, onStateLine data (pre ++ "_" ++ des) = changeResource change data (updateResources status data.resources))
    (counts : Counts change old moved.target) (returns : status = "return" ↔ moved.target = .nothing)
    (charged : old = .preAllocated ∨ old = .allocated) (mine : erProcessor.id = moved.processorId)
    (own : erProcessor.resources = [] ∨ erProcessor.resources.map kept = has) (inv : Inv useResourceDispatch s)
    (started : Started id moved old erProcessor.serverNodeId has asks s) :
    Leads useResourceDispatch requests id (resourceStateMechine.changeStatus context erProcessor pre des false)
      (fun _ => Rests id) (Rests id) s := by
  refine resource_lead unbroken line mine (fun all t taken inv started => ?_) inv started
  have moving := started.moving
  have stored : (resources t.tables moved.processorId).map portion = (t.asked moved.processorId).map portion := by
    obtain ⟨row,there,is,-⟩ := moving.row
    have at_row := (inv.row row there).stored
    rw [is,moving.charge] at at_row
    exact at_row charged
  have all_kept : all.map kept = has := by
    rcases taken with ⟨rfl,some_resource⟩ | ⟨-,is⟩
    · exact own.resolve_left some_resource
    · exact is
  rw [acts]
  have asked : all.map portion = (t.asked moved.processorId).map portion :=
    (portion_of_kept (all_kept.trans moving.resources.symm)).trans stored
  have parts : (has.map fun pair => (pair.1.resourceType,pair.2)) = all.map portion := by
    rw [← all_kept,List.map_map]
    rfl
  have bringing : Bringing id moved old erProcessor.serverNodeId has all t := ⟨moving,started.outside,asked⟩
  by_cases ends : moved.target = .nothing
  · have noted : Noted moved has (has.map Prod.fst) all := ⟨parts,fun _ => rfl,fun other => absurd ends other⟩
    refine changeResource_lead counts noted (fun t inv counting => ?_) inv bringing
    rw [returns.mpr ends]
    refine returnResources_lead ends ?_ inv counting
    rw [← all_kept,List.map_map]
    rfl
  · have noted : Noted moved has [] all := ⟨parts,fun nothing => absurd nothing ends,fun _ => rfl⟩
    exact changeResource_lead counts noted (fun t inv counting =>
      updateResources_lead (fun is => ends (returns.mp is)) inv counting) inv bringing

/-- The request has looked its processor up and has begun no move. -/
structure Ready (id : ℕ) (found : Option SessionProcessor) (s : State) : Prop where
  rests : Rests id s
  looked : s.looked id = some found
  outside : Outside id s
  same : ∀ row ∈ found, ∃ other ∈ s.tables.processors, SameProcessor row other

variable {found : Option SessionProcessor} {row₀ : SessionProcessor}

theorem Ready.keeps (keeps : Keeps id s t) (ready : Ready id found s) : Ready id found t := by
  refine ⟨keeps.moving.trans ready.rests,keeps.looked.trans ready.looked,ready.outside.keeps keeps,fun row is => ?_⟩
  obtain ⟨other,member,same⟩ := ready.same row is
  obtain ⟨now,inside,same'⟩ := keeps.rows other member
  exact ⟨now,inside,same.trans same'⟩

def Guarded (id : ℕ) (row : SessionProcessor) (s : State) : Prop :=
  Ready id (some row) s ∧ (s.locks .processor ("PK_" ++ row.sessionId)).owner = some id

theorem Guarded.stable : (contract useResourceDispatch id).Stable (Guarded id row₀) :=
  fun _ _ keeps guarded => ⟨guarded.1.keeps keeps,(keeps.owner _ _).mpr guarded.2⟩

def Begun (useResourceDispatch : Bool) (id : ℕ) (worker : ErProcessor) (row : SessionProcessor) (des : String) (s : State) :
    Prop :=
  if managed useResourceDispatch row then ∃ has asks,
    Started id ⟨row.processorId,chargeOf des⟩ (chargeOf row.status) worker.serverNodeId has asks s ∧
      (worker.resources = [] ∨ worker.resources.map kept = has)
  else Rests id s

variable {worker : ErProcessor}

theorem Begun.stable : (contract useResourceDispatch id).Stable (Begun useResourceDispatch id worker row₀ des) := by
  intro s t keeps begun
  unfold Begun at begun ⊢
  split
  · rename_i takes
    rw [if_pos takes] at begun
    obtain ⟨has,asks,started,own⟩ := begun
    exact ⟨has,asks,started.keeps keeps,own⟩
  · rename_i takes
    rw [if_neg takes] at begun
    exact keeps.moving.trans begun

private theorem processor_of_mem {tables : Tables} (distinct : (tables.processors.map SessionProcessor.processorId).Nodup)
    {row : SessionProcessor} (member : row ∈ tables.processors) : tables.processor row.processorId = some row := by
  cases found : tables.processor row.processorId with
  | none => simpa using List.find?_eq_none.mp found row member
  | some other =>
    obtain ⟨inside,same⟩ := processor_spec found
    rw [processor_unique distinct inside member same]

def Fits (requests : ℕ → Request) (id : ℕ) (worker : ErProcessor) (row₀ : SessionProcessor) : Prop :=
  ∀ t row, SameProcessor row₀ row → row.status = row₀.status →
    (row.status = "NEW" ∧ (requests id).desStateParam ≠ "RUNNING" ∨ carries t (requests id).erProcessor row = true) →
    worker.serverNodeId = row.serverNodeId ∧
      (worker.resources = [] ∨ worker.resources.map kept = (resources t.tables row.processorId).map kept)

private theorem updateState_lead (is : worker.id = row₀.processorId) (live : row₀.status = "NEW" ∨ row₀.status = "RUNNING")
    (fits : Fits requests id worker row₀) (guarded : Guarded id row₀ s) :
    Leads useResourceDispatch requests id (updateState worker des)
      (fun _ => Begun useResourceDispatch id worker row₀ des) (Rests id) s := by
  refine Does.perform Guarded.stable (fun _ => Begun.stable) Rests.stable guarded fun t env u answer inv here served => ?_
  obtain ⟨ready,own⟩ := here
  obtain ⟨allowed,served⟩ := service_cases served
  obtain ⟨row,member,same⟩ := ready.same row₀ rfl
  have at_worker : worker.id = row.processorId := is.trans same.processorId.symm
  have stored : t.tables.processor worker.id = some row := by
    rw [at_worker]
    exact processor_of_mem inv.distinct member
  rw [← same.sessionId] at own
  rcases serve_cases rfl served with ⟨rfl,⟨e,rfl⟩,-⟩ | ⟨rfl,now⟩
  · exact ⟨inv,fun other _ => .refl other u,ready.rests⟩
  · simp only [State.note,stored] at now
    by_cases takes : managed useResourceDispatch row = true
    · rw [if_pos takes,at_worker] at now
      have allowed := (Bool.and_eq_true_iff.mp allowed).2
      simp only [stored,Option.mem_some_iff,forall_eq',decide_eq_true_eq] at allowed
      obtain ⟨from_,created,data⟩ := allowed takes
      rw [ready.looked] at from_
      have status : row.status = row₀.status := by simpa using from_.symm
      rw [at_worker] at created
      obtain ⟨inv',keeps,moving⟩ :=
        restate_step inv (newState worker des) member takes (status ▸ live) created own ready.rests now
      obtain ⟨node,resources⟩ := fits t row same status data
      refine ⟨inv',keeps,?_⟩
      change Begun useResourceDispatch id worker row₀ des u
      rw [Begun,if_pos (by rw [← managed_same same]; exact takes),← same.processorId,← status,node]
      refine ⟨_,_,⟨moving,fun key own => ready.outside key ?_,rfl⟩,resources⟩
      rw [now] at own
      exact own
    · rw [if_neg takes,at_worker] at now
      obtain ⟨inv',keeps⟩ := restate_unmanaged id inv (newState worker des) member (by simpa using takes) now
      refine ⟨inv',keeps,?_⟩
      change Begun useResourceDispatch id worker row₀ des u
      rw [Begun,if_neg (by rw [← managed_same same]; exact takes),now]
      exact ready.rests

theorem status_lead {status : String} (unbroken : context.isBreak = false) (line : pre ++ "_" ++ des ∈ resourceLines)
    (acts : ∀ data, onStateLine data (pre ++ "_" ++ des) = changeResource change data (updateResources status data.resources))
    {target : String} (counts : Counts change (chargeOf row₀.status) (chargeOf target))
    (returns : status = "return" ↔ chargeOf target = .nothing) (is : worker.id = row₀.processorId)
    (type : worker.processorType = row₀.processorType) (live : row₀.status = "NEW" ∨ row₀.status = "RUNNING")
    (fits : Fits requests id worker row₀) (inv : Inv useResourceDispatch s) (guarded : Guarded id row₀ s) :
    Leads useResourceDispatch requests id (do
        updateState worker target
        changeResourceIfNeeded useResourceDispatch context worker pre des)
      (fun _ => Rests id) (Rests id) s := by
  refine (updateState_lead is live fits guarded).bind inv Rests.stable fun _ t inv begun => ?_
  have needed : checkNeedChangeResource useResourceDispatch worker = managed useResourceDispatch row₀ := by
    simp only [managed,checkNeedChangeResource,SessionProcessor.toErProcessor,type]
  unfold Begun at begun
  unfold changeResourceIfNeeded
  rw [needed]
  split
  · rename_i takes
    rw [if_pos takes] at begun
    obtain ⟨has,asks,started,own⟩ := begun
    exact reallocated_lead unbroken line acts counts returns (chargeOf_live live) is own inv started
  · rename_i takes
    rw [if_neg takes] at begun
    exact .pure Rests.stable begun

theorem readBack_lead {data : ErProcessor} {missing : Failure} (rests : Rests id s) :
    Leads useResourceDispatch requests id (readBack context data missing) (fun _ => Rests id) (Rests id) s := by
  have safe : (readBack context data missing).Makes (fun op => harmless op = true) fun _ => True := by
    refine .bind (call_harmless rfl) fun found _ => ?_
    cases found with
    | some row => exact .pure trivial
    | none => exact .raise
  exact rests_lead safe rests

theorem fits_given {request : Request} (mine : requests id = request) (type before : String)
    (own : row₀.status = "NEW" → request.desStateParam = "RUNNING") :
    Fits requests id { request.erProcessor with
      processorType := type
      beforeStatus := before } row₀ := by
  intro t row same status data
  have given : carries t request.erProcessor row = true := by
    rw [mine] at data
    exact data.resolve_left fun new => new.2 (own (status ▸ new.1))
  simpa only [carries,decide_eq_true_eq] using given

theorem fits_found : Fits requests id row₀.toErProcessor row₀ :=
  fun _ _ same _ _ => ⟨same.serverNodeId.symm,.inl rfl⟩

theorem locked_lead {T : Type} {handler : StateHandler T} {given : T} {prepared : Context × T}
    (is : handler.prepare context given pre des = Pure.pure prepared) (rests : Rests id s) (inv : Inv useResourceDispatch s)
    (handled : prepared.1.isBreak = false →
      Leads useResourceDispatch requests id (handler.handle prepared.1 prepared.2 pre des) (fun _ => Rests id) (Rests id) s) :
    Leads useResourceDispatch requests id (AbstractStateMachine.locked handler context given pre des false)
      (fun _ => Rests id) (Rests id) s := by
  rw [AbstractStateMachine.locked,is,pure_bind]
  split
  · exact .pure Rests.stable rests
  · rename_i unbroken
    refine Does.bind (A := fun _ => Rests id) ?_ inv Rests.stable fun result t _ rests => submitPost_lead rests
    exact (handled (by simpa using unbroken)).bind inv Rests.stable fun result t _ rests => .pure Rests.stable rests

end
end

end Eggroll.Cluster.NodeAccounts
