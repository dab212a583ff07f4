import Eggroll.NodeLedger

/-! A move of a processor, call by call: its status is stored, the counters of its node follow
under the lock of the node, its resources are noted, and with the lock it is charged anew. -/
namespace Eggroll.Cluster.NodeAccounts
open Library
open Program hiding call

def shift (old target on : Charge) : Int := (if target = on then 1 else 0) - if old = on then 1 else 0

/-- What is on its way to the node when these resources have been counted. -/
def away (old target : Charge) (resources : List ErResource) : Charge → String → Int :=
  fun on resourceType => shift old target on * amount resources resourceType

/-- The request is in the middle of this move. -/
structure Moving (id : ℕ) (moved : Move) (old : Charge) (serverNodeId : Int) (has : List (ResourceKey × Int))
    (done : List ResourceKey) (s : State) : Prop where
  moving : s.moving id = some moved
  charge : s.charge moved.processorId = old
  row : ∃ row ∈ s.tables.processors, row.processorId = moved.processorId ∧ row.serverNodeId = serverNodeId
  resources : (resources s.tables moved.processorId).map kept = has
  returned : ∀ key, key.processorId = some moved.processorId → s.returned.count key = done.count key

def Outside (id : ℕ) (s : State) : Prop := ∀ key, (s.locks .nodeResource key).owner ≠ some id

/-- Under the lock of the node. -/
structure Inside (id : ℕ) (moved : Move) (old : Charge) (serverNodeId : Int) (has : List (ResourceKey × Int))
    (done : List ResourceKey) (on : Charge → String → Int) (s : State) : Prop where
  moving : Moving id moved old serverNodeId has done s
  owner : (s.locks .nodeResource (toString serverNodeId)).owner = some id
  only : ∀ key, key ≠ toString serverNodeId → (s.locks .nodeResource key).owner ≠ some id
  books : Books s serverNodeId on
  others : ∀ other, other ≠ serverNodeId → toString other = toString serverNodeId → Books s other nowhere

section
variable {useResourceDispatch : Bool} {id : ℕ} {s t : State} {moved : Move} {old : Charge} {serverNodeId : Int}
  {has : List (ResourceKey × Int)} {done : List ResourceKey} {on : Charge → String → Int}

theorem Moving.keeps (keeps : Keeps id s t) (holds : Moving id moved old serverNodeId has done s) :
    Moving id moved old serverNodeId has done t := by
  have untouched := keeps.untouched moved holds.moving
  refine ⟨keeps.moving.trans holds.moving,untouched.charge.trans holds.charge,?_,untouched.resources.trans holds.resources,
    fun key is => (untouched.returned key is).trans (holds.returned key is)⟩
  obtain ⟨row,member,processorId,node⟩ := holds.row
  obtain ⟨other,inside,same⟩ := keeps.rows row member
  exact ⟨other,inside,same.processorId.trans processorId,same.serverNodeId.trans node⟩

theorem Outside.keeps (keeps : Keeps id s t) (outside : Outside id s) : Outside id t :=
  fun key own => outside key ((keeps.owner _ _).mp own)

theorem Inside.keeps (keeps : Keeps id s t) (holds : Inside id moved old serverNodeId has done on s) :
    Inside id moved old serverNodeId has done on t where
  moving := holds.moving.keeps keeps
  owner := (keeps.owner _ _).mpr holds.owner
  only key other own := holds.only key other ((keeps.owner _ _).mp own)
  books := holds.books.frozen (keeps.frozen _ holds.owner)
  others other ne same := (holds.others other ne same).frozen (keeps.frozen _ (by rw [same]; exact holds.owner))

private theorem Inv.unmoved (inv : Inv useResourceDispatch s) {row : SessionProcessor} (member : row ∈ s.tables.processors)
    (created : s.charge row.processorId ≠ .asked)
    (own : (s.locks .processor ("PK_" ++ row.sessionId)).owner = some id) (still : s.moving id = none) (i : ℕ)
    (moved : Move) (moving : s.moving i = some moved) : moved.processorId ≠ row.processorId := by
  intro is
  obtain ⟨other,inside,moves⟩ := inv.moves i moved moving
  obtain rfl := processor_unique inv.distinct inside member (moves.processorId.trans is)
  rcases moves.under with asked | owner
  · exact created asked
  · obtain rfl := Option.some.inj (own.symm.trans owner)
    rw [still] at moving
    cases moving

def restate (processorId : Int) (patch : ProcessorPatch) (row : SessionProcessor) : SessionProcessor :=
  if row.processorId = processorId then patch.apply row else row

theorem restate_same (processorId : Int) (patch : ProcessorPatch) (row : SessionProcessor) :
    SameProcessor row (restate processorId patch row) := by
  unfold restate
  split
  · exact ⟨rfl,rfl,rfl,rfl⟩
  · exact .refl row

theorem chargeOf_live {status : String} (live : status = "NEW" ∨ status = "RUNNING") :
    chargeOf status = .preAllocated ∨ chargeOf status = .allocated := by
  rcases live with rfl | rfl
  · exact .inl rfl
  · exact .inr rfl

theorem restate_unmanaged (id : ℕ) (inv : Inv useResourceDispatch s) {row : SessionProcessor} (patch : ProcessorPatch)
    (member : row ∈ s.tables.processors) (unmanaged : managed useResourceDispatch row = false)
    (is : t = { s with tables := s.tables.write (.updateProcessor row.processorId patch) }) :
    Inv useResourceDispatch t ∧ ∀ other ≠ id, Keeps other s t := by
  subst is
  have calm : Calm (restate row.processorId patch) s
      { s with tables := s.tables.write (.updateProcessor row.processorId patch) } :=
    ⟨restate_same _ _,rfl,rfl,rfl,rfl,rfl,fun _ _ => rfl,fun _ => rfl,rfl⟩
  have elsewhere {other : SessionProcessor} (inside : other ∈ s.tables.processors)
      (takes : managed useResourceDispatch other = true) : restate row.processorId patch other = other := by
    refine if_neg fun same => ?_
    rw [processor_unique inv.distinct inside member same,unmanaged] at takes
    cases takes
  refine ⟨inv.calm calm (fun _ _ moving => moving) (fun other inside takes _ => by rw [elsewhere inside takes]) ?_ inv.single
    fun _ _ own _ => own,fun other _ => calm.keeps rfl rfl fun _ _ => Iff.rfl⟩
  intro i moved moving
  obtain ⟨other,inside,moves⟩ := inv.moves i moved moving
  refine ⟨other,inside,?_⟩
  rw [elsewhere inside moves.managed]
  exact ⟨moves.processorId,moves.managed,moves.target,moves.charged,moves.under⟩

theorem restate_step (inv : Inv useResourceDispatch s) {row : SessionProcessor} (patch : ProcessorPatch)
    (member : row ∈ s.tables.processors) (takes : managed useResourceDispatch row = true)
    (live : row.status = "NEW" ∨ row.status = "RUNNING") (created : s.charge row.processorId ≠ .asked)
    (own : (s.locks .processor ("PK_" ++ row.sessionId)).owner = some id) (still : s.moving id = none)
    (is : t = { s.move id (some ⟨row.processorId,chargeOf patch.status⟩) with
      tables := s.tables.write (.updateProcessor row.processorId patch) }) :
    Inv useResourceDispatch t ∧ (∀ other ≠ id, Keeps other s t) ∧
      Moving id ⟨row.processorId,chargeOf patch.status⟩ (chargeOf row.status) row.serverNodeId
        ((resources s.tables row.processorId).map kept) [] t := by
  have unmoved := inv.unmoved member created own still
  have charge : s.charge row.processorId = chargeOf row.status := (inv.row row member).settled takes unmoved
  have charged : s.charge row.processorId ≠ .nothing := by
    rw [charge]
    rcases chargeOf_live live with is | is <;> simp [is]
  have calm : Calm (restate row.processorId patch) s t := by
    subst is
    exact ⟨restate_same _ _,rfl,rfl,rfl,rfl,rfl,fun _ _ => rfl,fun _ => rfl,rfl⟩
  have mine : t.moving id = some ⟨row.processorId,chargeOf patch.status⟩ := by
    subst is
    exact Function.update_self _ _ _
  have others (i : ℕ) (ne : i ≠ id) : t.moving i = s.moving i := by
    subst is
    exact Function.update_of_ne ne _ _
  have locks : t.locks = s.locks := by
    subst is
    rfl
  have restated : restate row.processorId patch row = patch.apply row := if_pos rfl
  refine ⟨inv.calm calm (fun i moved moving => ?_) (fun other inside _ free => ?_) (fun i moved moving => ?_)
    (fun i j moved other first second same => ?_) fun key i owner _ => by rw [locks]; exact owner,
    fun other ne => calm.keeps (by subst is; rfl) (others other ne) fun _ _ => by rw [locks],?_⟩
  · have ne : i ≠ id := by
      rintro rfl
      rw [still] at moving
      cases moving
    rw [others i ne]
    exact moving
  · have elsewhere : other.processorId ≠ row.processorId := fun same => free id _ mine same.symm
    rw [restate,if_neg elsewhere]
  · by_cases ne : i = id
    · subst ne
      cases mine.symm.trans moving
      refine ⟨row,member,?_⟩
      rw [restated]
      refine ⟨rfl,takes,rfl,?_,.inr ?_⟩
      · rw [calm.charge]
        exact charged
      · rw [locks]
        exact own
    · rw [others i ne] at moving
      obtain ⟨other,inside,moves⟩ := inv.moves i moved moving
      refine ⟨other,inside,?_⟩
      have elsewhere : other.processorId ≠ row.processorId := fun same =>
        unmoved i moved moving (moves.processorId.symm.trans same)
      rw [restate,if_neg elsewhere]
      refine ⟨moves.processorId,moves.managed,moves.target,?_,?_⟩
      · rw [calm.charge]
        exact moves.charged
      · rw [calm.charge,locks]
        exact moves.under
  · by_cases first_is : i = id
    · by_cases second_is : j = id
      · exact first_is.trans second_is.symm
      · rw [first_is,mine] at first
        cases first
        rw [others j second_is] at second
        exact absurd same.symm (unmoved j other second)
    · rw [others i first_is] at first
      by_cases second_is : j = id
      · rw [second_is,mine] at second
        cases second
        exact absurd same (unmoved i moved first)
      · rw [others j second_is] at second
        exact inv.single i j moved other first second same
  · refine ⟨mine,?_,?_,calm.resources _,fun key is => ?_⟩
    · rw [calm.charge]
      exact charge
    · refine ⟨patch.apply row,?_,rfl,rfl⟩
      rw [calm.processors,← restated]
      exact List.mem_map_of_mem member
    · rw [calm.returned,List.count_nil,List.count_eq_zero]
      intro returned
      obtain ⟨other,inside,is',free⟩ := inv.returned key returned
      rw [is] at is'
      obtain rfl := processor_unique inv.distinct member inside (Option.some.inj is')
      rcases free with nothing | ⟨i,moving⟩
      · exact charged nothing
      · exact unmoved i _ moving rfl

end

/-- A processor has been inserted, and it is charged so. -/
structure Inserted (id : ℕ) (new : SessionProcessor) (on : Charge) (s t : State) : Prop where
  tables : t.tables = { s.tables with processors := s.tables.processors ++ [new], nextId := s.tables.nextId + 1 }
  processorId : new.processorId = s.tables.nextId
  charge : t.charge = Function.update s.charge s.tables.nextId on
  kind : on = .asked ∨ on = .nothing
  asked : ∀ processorId : Int, processorId ≠ s.tables.nextId → t.asked processorId = s.asked processorId
  returned : t.returned = s.returned
  looked : t.looked = s.looked
  locks : t.locks = s.locks
  moving : ∀ other ≠ id, t.moving other = s.moving other
  still : s.moving id = none

def Spare (new : SessionProcessor) (on : Charge) (s t : State) : Prop :=
  on = .asked → ∀ resource ∈ t.asked s.tables.nextId, 0 ≤ resource.allocated ∧
    ∃ node, s.tables.nodeResource new.serverNodeId resource.resourceType = some node ∧
      s.admitted new.serverNodeId resource.resourceType + amount (t.asked s.tables.nextId) resource.resourceType ≤
        node.total

section
variable {useResourceDispatch : Bool} {id : ℕ} {s t : State} {new row : SessionProcessor} {on : Charge}

theorem Inv.older (inv : Inv useResourceDispatch s) (member : row ∈ s.tables.processors) :
    row.processorId ≠ s.tables.nextId := Int.ne_of_lt (inv.ids row member)

theorem Inv.none_yet (inv : Inv useResourceDispatch s) : resources s.tables s.tables.nextId = [] := by
  rw [resources,List.map_eq_nil_iff,Tables.resourcesOf,List.filter_eq_nil_iff]
  intro row member is
  obtain ⟨processorId,same,below⟩ := inv.owners _ (List.mem_map_of_mem member)
  cases same
  exact absurd (of_decide_eq_true is) (Int.ne_of_lt below)

theorem Inserted.older (inserted : Inserted id new on s t) (inv : Inv useResourceDispatch s)
    (member : row ∈ s.tables.processors) :
    t.charge row.processorId = s.charge row.processorId ∧ t.asked row.processorId = s.asked row.processorId :=
  ⟨by rw [inserted.charge,Function.update_of_ne (inv.older member)],inserted.asked _ (inv.older member)⟩

private theorem Inserted.charged_eq (inserted : Inserted id new on s t) (inv : Inv useResourceDispatch s) {class_ : Charge}
    (other : class_ = .preAllocated ∨ class_ = .allocated) (serverNodeId : Int) (resourceType : String) :
    charged t serverNodeId resourceType class_ = charged s serverNodeId resourceType class_ := by
  have uncounted : decide (new.serverNodeId = serverNodeId ∧ t.charge new.processorId = class_) = false := by
    rw [inserted.charge,inserted.processorId,Function.update_self,decide_eq_false_iff_not]
    rintro ⟨-,rfl⟩
    rcases inserted.kind with is | is <;> rcases other with other | other <;> cases is.symm.trans other
  rw [charged,inserted.tables,weigh_append,weigh_cons,uncounted,if_neg (by simp),weigh_nil,charged]
  refine (Int.add_zero _).trans (weigh_congr (fun row member => ?_) fun row member _ => ?_)
  · rw [(inserted.older inv member).1]
  · rw [(inserted.older inv member).2]

private theorem Inserted.admitted_eq (inserted : Inserted id new on s t) (inv : Inv useResourceDispatch s)
    (serverNodeId : Int) (resourceType : String) :
    t.admitted serverNodeId resourceType = s.admitted serverNodeId resourceType +
      if new.serverNodeId = serverNodeId ∧ on ≠ .nothing then amount (t.asked s.tables.nextId) resourceType else 0 := by
  rw [State.admitted,inserted.tables,weigh_append,weigh_cons,weigh_nil,Int.add_zero,State.admitted]
  refine congrArg₂ (· + ·) (weigh_congr (fun row member => ?_) fun row member _ => ?_) ?_
  · rw [(inserted.older inv member).1]
  · rw [(inserted.older inv member).2]
  · simp only [inserted.charge,inserted.processorId,Function.update_self,decide_eq_true_eq]

theorem Inserted.keeps (inserted : Inserted id new on s t) (inv : Inv useResourceDispatch s) {other : ℕ} (ne : other ≠ id) :
    Keeps other s t where
  looked := by rw [inserted.looked]
  moving := inserted.moving other ne
  owner _ _ := by rw [inserted.locks]
  rows row member := ⟨row,by rw [inserted.tables]; exact List.mem_append_left _ member,.refl row⟩
  untouched moved moving := by
    obtain ⟨row,member,moves⟩ := inv.moves other moved moving
    rw [← moves.processorId]
    exact ⟨(inserted.older inv member).1,(inserted.older inv member).2,by rw [inserted.tables]; rfl,
      fun _ _ => by rw [inserted.returned]⟩
  frozen serverNodeId _ := ⟨fun _ => by rw [inserted.tables]; rfl,
    inserted.charged_eq inv (.inl rfl) serverNodeId,inserted.charged_eq inv (.inr rfl) serverNodeId⟩

section
variable (inserted : Inserted id new on s t)
include inserted

private theorem Inserted.on_new : t.charge new.processorId = on := by
  rw [inserted.charge,inserted.processorId,Function.update_self]

private theorem Inserted.resources_eq (processorId : Int) : resources t.tables processorId = resources s.tables processorId := by
  rw [inserted.tables]
  rfl

private theorem Inserted.keys_eq : keys t.tables = keys s.tables := by
  rw [inserted.tables]
  rfl

private theorem Inserted.node_eq (serverNodeId : Int) (resourceType : String) :
    t.tables.nodeResource serverNodeId resourceType = s.tables.nodeResource serverNodeId resourceType := by
  rw [inserted.tables]
  rfl

private theorem Inserted.goes (i : ℕ) (moved : Move) (is : s.moving i = some moved) : t.moving i = some moved := by
  have ne : i ≠ id := by
    rintro rfl
    rw [inserted.still] at is
    cases is
  rw [inserted.moving i ne]
  exact is

private theorem Inserted.old_or_new (moving : t.moving id = if on = .asked then some ⟨s.tables.nextId,chargeOf new.status⟩ else none)
    {i : ℕ} {moved : Move} (is : t.moving i = some moved) :
    s.moving i = some moved ∨ i = id ∧ on = .asked ∧ moved = ⟨s.tables.nextId,chargeOf new.status⟩ := by
  by_cases mine : i = id
  · rw [mine,moving] at is
    split at is
    · exact .inr ⟨mine,‹_›,(Option.some.inj is).symm⟩
    · cases is
  · exact .inl ((inserted.moving i mine).symm.trans is)

variable (inv : Inv useResourceDispatch s)
include inv

private theorem Inserted.fits (left : Spare new on s t) (serverNodeId : Int) (resourceType : String) (node : NodeResource)
    (found : s.tables.nodeResource serverNodeId resourceType = some node)
    (before : s.admitted serverNodeId resourceType ≤ node.total) : t.admitted serverNodeId resourceType ≤ node.total := by
  rw [inserted.admitted_eq inv]
  split
  · rename_i here
    obtain ⟨rfl,charged⟩ := here
    have is_asked := inserted.kind.resolve_right charged
    by_cases some_resource : ∃ resource ∈ t.asked s.tables.nextId, resource.resourceType = resourceType
    · obtain ⟨resource,member,rfl⟩ := some_resource
      obtain ⟨-,other,found',fits⟩ := left is_asked resource member
      cases found.symm.trans found'
      exact fits
    · rw [amount_absent fun resource member is => some_resource ⟨resource,member,is⟩]
      omega
  · omega

private theorem Inserted.row_older (left : Spare new on s t) (inside : row ∈ s.tables.processors) :
    RowInv useResourceDispatch t row := by
  obtain ⟨charge,asked⟩ := inserted.older inv inside
  have at_row := inv.row row inside
  refine ⟨?_,?_,?_,?_,?_,?_⟩
  · rw [charge]
    exact at_row.unmanaged
  · rw [charge,asked]
    intro charged resource member
    obtain ⟨heavy,node,found,before⟩ := at_row.asked charged resource member
    exact ⟨heavy,node,(inserted.node_eq _ _).trans found,inserted.fits inv left _ _ node found before⟩
  · rw [charge,asked,inserted.resources_eq]
    exact at_row.stored
  · rw [inserted.resources_eq]
    exact at_row.bare
  · rw [charge]
    exact fun takes free => at_row.settled takes fun i moved is => free i moved (inserted.goes i moved is)
  · rw [charge,inserted.returned,inserted.keys_eq]
    exact at_row.once

private theorem Inserted.row_new (charges : managed useResourceDispatch new = true ↔ on = .asked)
    (moving : t.moving id = if on = .asked then some ⟨s.tables.nextId,chargeOf new.status⟩ else none)
    (left : Spare new on s t) : RowInv useResourceDispatch t new := by
  refine ⟨?_,?_,?_,?_,?_,?_⟩
  · intro unmanaged
    rw [inserted.on_new]
    refine inserted.kind.resolve_left fun is => ?_
    rw [charges.mpr is] at unmanaged
    cases unmanaged
  · rw [inserted.on_new,inserted.processorId]
    intro charged resource member
    have is_asked := inserted.kind.resolve_right charged
    obtain ⟨heavy,node,found,below⟩ := left is_asked resource member
    refine ⟨heavy,node,(inserted.node_eq _ _).trans found,?_⟩
    rw [inserted.admitted_eq inv,if_pos ⟨rfl,charged⟩]
    exact below
  · rw [inserted.on_new]
    intro stored
    rcases inserted.kind with is | is <;> rcases stored with other | other <;> cases is.symm.trans other
  · rw [inserted.processorId,inserted.resources_eq]
    exact fun _ => inv.none_yet
  · intro takes free
    refine absurd inserted.processorId.symm (free id ⟨s.tables.nextId,chargeOf new.status⟩ ?_)
    rw [moving,if_pos (charges.mp takes)]
  · rw [inserted.processorId,inserted.returned,inserted.keys_eq]
    intro _ key is
    have unknown : key ∉ s.returned := fun returned => by
      obtain ⟨other,there,is',-⟩ := inv.returned key returned
      exact inv.older there (Option.some.inj (is'.symm.trans is))
    rw [List.count_eq_zero.mpr unknown,keys_count is,inv.none_yet]
    rfl

private theorem Inserted.moves_on (charges : managed useResourceDispatch new = true ↔ on = .asked)
    (moving : t.moving id = if on = .asked then some ⟨s.tables.nextId,chargeOf new.status⟩ else none)
    (i : ℕ) (moved : Move) (is : t.moving i = some moved) :
    ∃ row ∈ t.tables.processors, MoveInv useResourceDispatch t i moved row := by
  rcases inserted.old_or_new moving is with before | ⟨rfl,is_asked,rfl⟩
  · obtain ⟨row,member,moves⟩ := inv.moves i moved before
    refine ⟨row,by rw [inserted.tables]; exact List.mem_append_left _ member,moves.processorId,moves.managed,
      moves.target,?_,?_⟩
    · rw [(inserted.older inv member).1]
      exact moves.charged
    · rw [(inserted.older inv member).1,inserted.locks]
      exact moves.under
  · refine ⟨new,by rw [inserted.tables]; exact List.mem_append_right _ List.mem_cons_self,inserted.processorId,
      charges.mpr is_asked,rfl,?_,.inl ?_⟩
    · rw [inserted.on_new,is_asked]
      exact Charge.noConfusion
    · rw [inserted.on_new,is_asked]

private theorem Inserted.single
    (moving : t.moving id = if on = .asked then some ⟨s.tables.nextId,chargeOf new.status⟩ else none)
    (i j : ℕ) (moved other : Move) (first : t.moving i = some moved) (second : t.moving j = some other)
    (same : moved.processorId = other.processorId) : i = j := by
  have apart {i : ℕ} {moved : Move} (is : s.moving i = some moved) : moved.processorId ≠ s.tables.nextId := by
    obtain ⟨row,member,moves⟩ := inv.moves i moved is
    rw [← moves.processorId]
    exact inv.older member
  rcases inserted.old_or_new moving first with before | ⟨rfl,-,rfl⟩
  · rcases inserted.old_or_new moving second with before' | ⟨rfl,-,rfl⟩
    · exact inv.single i j moved other before before' same
    · exact absurd same (apart before)
  · rcases inserted.old_or_new moving second with before' | ⟨rfl,-,rfl⟩
    · exact absurd same.symm (apart before')
    · rfl

private theorem Inserted.books (serverNodeId : Int)
    (free : ∀ i, (t.locks .nodeResource (toString serverNodeId)).owner = some i → t.moving i = none) :
    Books t serverNodeId nowhere := by
  have frozen : Frozen serverNodeId s t :=
    ⟨inserted.node_eq serverNodeId,inserted.charged_eq inv (.inl rfl) serverNodeId,inserted.charged_eq inv (.inr rfl) serverNodeId⟩
  refine (inv.books serverNodeId fun i own => ?_).frozen frozen
  rw [← inserted.locks] at own
  by_contra busy
  obtain ⟨moved,is⟩ := Option.ne_none_iff_exists'.mp busy
  have idle := free i own
  rw [inserted.goes i moved is] at idle
  cases idle

end

theorem Inserted.inv (inserted : Inserted id new on s t) (inv : Inv useResourceDispatch s)
    (charges : managed useResourceDispatch new = true ↔ on = .asked)
    (moving : t.moving id = if on = .asked then some ⟨s.tables.nextId,chargeOf new.status⟩ else none)
    (left : Spare new on s t) : Inv useResourceDispatch t := by
  constructor
  case distinct =>
    rw [inserted.tables,List.map_append,List.map_singleton]
    refine inv.distinct.append (List.nodup_singleton _) ?_
    intro processorId inside is
    obtain ⟨row,member,rfl⟩ := List.mem_map.mp inside
    exact inv.older member ((List.mem_singleton.mp is).trans inserted.processorId)
  case ids =>
    intro row member
    rw [inserted.tables] at member ⊢
    rcases List.mem_append.mp member with inside | inside
    · have := inv.ids row inside
      push_cast
      omega
    · rw [List.mem_singleton.mp inside,inserted.processorId]
      push_cast
      omega
  case owners =>
    rw [inserted.keys_eq]
    intro key member
    obtain ⟨processorId,is,below⟩ := inv.owners key member
    refine ⟨processorId,is,?_⟩
    rw [inserted.tables]
    push_cast
    omega
  case fresh =>
    intro processorId beyond
    rw [inserted.tables] at beyond
    push_cast at beyond
    rw [inserted.charge,Function.update_of_ne (by omega)]
    exact inv.fresh processorId (by omega)
  case row =>
    intro row member
    rw [inserted.tables] at member
    rcases List.mem_append.mp member with inside | inside
    · exact inserted.row_older inv left inside
    · obtain rfl := List.mem_singleton.mp inside
      exact inserted.row_new inv charges moving left
  case moves => exact inserted.moves_on inv charges moving
  case single => exact inserted.single inv moving
  case returned =>
    intro key member
    rw [inserted.returned] at member
    obtain ⟨row,inside,is,free⟩ := inv.returned key member
    refine ⟨row,by rw [inserted.tables]; exact List.mem_append_left _ inside,is,?_⟩
    rw [(inserted.older inv inside).1]
    exact free.imp_right fun ⟨i,moving⟩ => ⟨i,inserted.goes i _ moving⟩
  case most =>
    rw [inserted.returned,inserted.keys_eq]
    exact inv.most
  case within =>
    intro serverNodeId resourceType node found
    exact inv.within serverNodeId resourceType node ((inserted.node_eq _ _).symm.trans found)
  case books => exact inserted.books inv

end

section
variable {useResourceDispatch : Bool} {id : ℕ} {s t : State} {moved : Move} {old : Charge} {serverNodeId : Int}
  {has : List (ResourceKey × Int)} {done : List ResourceKey} {on : Charge → String → Int}

theorem MoveInv.of_same {i : ℕ} {move : Move} {row : SessionProcessor} (moves : MoveInv useResourceDispatch s i move row)
    (charge : t.charge row.processorId = s.charge row.processorId) (locks : t.locks = s.locks) :
    MoveInv useResourceDispatch t i move row :=
  ⟨moves.processorId,moves.managed,moves.target,by rw [charge]; exact moves.charged,
    by rw [charge,locks]; exact moves.under⟩

theorem Inv.quiet (inv : Inv useResourceDispatch s) (calm : Calm (fun row => row) s t) (looked : t.looked = s.looked)
    (moving : t.moving = s.moving) (locks : t.locks = s.locks) : Inv useResourceDispatch t ∧ ∀ i, Keeps i s t :=
  ⟨inv.still calm moving fun _ _ _ own _ => by rw [locks]; exact own,
    fun _ => calm.keeps (by rw [looked]) (by rw [moving]) fun _ _ => by rw [locks]⟩

theorem enter_step (inv : Inv useResourceDispatch s) (holds : Moving id moved old serverNodeId has done s)
    (outside : Outside id s) {lock : ReentrantLock ℕ}
    (locked : (s.locks .nodeResource (toString serverNodeId)).lock id = some lock) :
    Inside id moved old serverNodeId has done nowhere (s.setLock .nodeResource (toString serverNodeId) lock) := by
  obtain ⟨free,mine⟩ := ReentrantLock.lock_owner locked
  have none := free.resolve_right (outside _)
  have calm : Calm (fun row => row) s (s.setLock .nodeResource (toString serverNodeId) lock) := .of_same rfl rfl rfl rfl
  have books (other : Int) (same : toString other = toString serverNodeId) :
      Books (s.setLock .nodeResource (toString serverNodeId) lock) other nowhere := by
    refine (inv.books other fun i own => ?_).frozen (calm.frozen other)
    rw [same,none] at own
    cases own
  exact ⟨⟨holds.moving,holds.charge,holds.row,holds.resources,holds.returned⟩,by simpa [State.setLock] using mine,
    fun key other => by rw [setLock_other fun same => other same.2]; exact outside key,books _ rfl,fun other _ => books other⟩

theorem Inside.alone (inside : Inside id moved old serverNodeId has done on s) (inv : Inv useResourceDispatch s)
    {other : ℕ} (ne : other ≠ id) :
    (∀ move, s.moving other = some move → move.processorId ≠ moved.processorId) ∧
      ∀ node, (s.locks .nodeResource (toString node)).owner = some other → node ≠ serverNodeId := by
  refine ⟨fun move moving same => ne (inv.single other id move moved moving inside.moving.moving same),fun node own is => ?_⟩
  subst is
  exact ne (Option.some.inj (own.symm.trans inside.owner))

theorem count_step (on' : Charge → String → Int) (inv : Inv useResourceDispatch s)
    (inside : Inside id moved old serverNodeId has done on s)
    {row new : NodeResource} (found : s.tables.nodeResource serverNodeId row.resourceType = some row)
    (node : new.serverNodeId = serverNodeId) (type : new.resourceType = row.resourceType) (total : new.total = row.total)
    (within : Within new) (is : t = { s with tables := s.tables.write (.updateNodeResource new) })
    (pre : new.preAllocated = charged s serverNodeId row.resourceType .preAllocated + on' .preAllocated row.resourceType)
    (allocated : new.allocated = charged s serverNodeId row.resourceType .allocated + on' .allocated row.resourceType)
    (rest : ∀ class_ resourceType, resourceType ≠ row.resourceType → on' class_ resourceType = on class_ resourceType) :
    Inv useResourceDispatch t ∧ (∀ other ≠ id, Keeps other s t) ∧
      Inside id moved old serverNodeId has done on' t := by
  have written (n : Int) (resourceType : String) : t.tables.nodeResource n resourceType =
      if serverNodeId = n ∧ row.resourceType = resourceType then some new else s.tables.nodeResource n resourceType := by
    rw [is,node_written,node,type]
    split
    · rename_i here
      rw [← here.1,← here.2,found]
      rfl
    · rfl
  have charged_eq (n : Int) (resourceType : String) (class_ : Charge) :
      charged t n resourceType class_ = charged s n resourceType class_ := by
    subst is
    rfl
  have frozen {n : Int} (elsewhere : n ≠ serverNodeId) : Frozen n s t :=
    ⟨fun resourceType => by rw [written,if_neg fun here => elsewhere here.1.symm],fun _ => charged_eq _ _ _,
      fun _ => charged_eq _ _ _⟩
  refine ⟨?_,fun other ne => ?_,?_⟩
  · subst is
    refine ⟨inv.distinct,inv.ids,inv.owners,inv.fresh,fun other member => ?_,fun i move moving => ?_,inv.single,
      inv.returned,inv.most,fun n resourceType stored there => ?_,fun n free => ?_⟩
    · have at_row := inv.row other member
      refine ⟨at_row.unmanaged,fun charged resource asked => ?_,at_row.stored,at_row.bare,at_row.settled,at_row.once⟩
      obtain ⟨heavy,stored,there,below⟩ := at_row.asked charged resource asked
      rw [written]
      split
      · rename_i here
        refine ⟨heavy,new,rfl,?_⟩
        rw [← here.1,← here.2,found] at there
        cases there
        exact below.trans_eq total.symm
      · exact ⟨heavy,stored,there,below⟩
    · obtain ⟨other,member,moves⟩ := inv.moves i move moving
      exact ⟨other,member,moves.of_same rfl rfl⟩
    · rw [written] at there
      split at there
      · cases there
        exact within
      · exact inv.within n resourceType stored there
    · have elsewhere : n ≠ serverNodeId := by
        rintro rfl
        have idle := free id inside.owner
        rw [inside.moving.moving] at idle
        cases idle
      exact (inv.books n free).frozen (frozen elsewhere)
  · have := inside.alone inv ne
    refine ⟨by subst is; rfl,by subst is; rfl,fun _ _ => by subst is; rfl,
      fun row member => ⟨row,by subst is; exact member,.refl row⟩,
      fun _ _ => by subst is; exact ⟨rfl,rfl,rfl,fun _ _ => rfl⟩,fun n own => frozen (this.2 n own)⟩
  · have moving := inside.moving
    refine ⟨?_,by subst is; exact inside.owner,by subst is; exact inside.only,
      ⟨fun resourceType stored there => ?_,fun resourceType stored there => ?_⟩,
      fun other elsewhere same => (inside.others other elsewhere same).frozen (frozen elsewhere)⟩
    · subst is
      exact ⟨moving.moving,moving.charge,moving.row,moving.resources,moving.returned⟩
    · rw [written] at there
      rw [charged_eq]
      split at there
      · rename_i here
        cases there
        rw [← here.2]
        exact pre
      · rename_i other
        rw [rest _ _ fun same => other ⟨rfl,same.symm⟩]
        exact inside.books.preAllocated resourceType stored there
    · rw [written] at there
      rw [charged_eq]
      split at there
      · rename_i here
        cases there
        rw [← here.2]
        exact allocated
      · rename_i other
        rw [rest _ _ fun same => other ⟨rfl,same.symm⟩]
        exact inside.books.allocated resourceType stored there

theorem recount_step (inv : Inv useResourceDispatch s) {row : NodeResource}
    (found : s.tables.nodeResource row.serverNodeId row.resourceType = some row)
    (is : t = { s with tables := s.tables.write (.updateNodeResource row) }) :
    Inv useResourceDispatch t ∧ (∀ i, Keeps i s t) ∧
      ∀ n resourceType, t.tables.nodeResource n resourceType = s.tables.nodeResource n resourceType := by
  have same (n : Int) (resourceType : String) : t.tables.nodeResource n resourceType = s.tables.nodeResource n resourceType := by
    rw [is,node_written]
    split
    · rename_i here
      rw [← here.1,← here.2,found]
      rfl
    · rfl
  have calm : Calm (fun row => row) s t := by
    subst is
    exact ⟨.refl,(List.map_id' _).symm,rfl,rfl,rfl,rfl,same,fun _ => rfl,rfl⟩
  obtain ⟨inv',keeps⟩ := inv.quiet calm (by subst is; rfl) (by subst is; rfl) (by subst is; rfl)
  exact ⟨inv',keeps,same⟩

theorem save_step (inv : Inv useResourceDispatch s) (inside : Inside id moved .asked serverNodeId has done on s)
    (row : ProcessorResource) (mine : row.processorId = moved.processorId)
    (is : t = { s with tables := s.tables.write (.saveResource row) }) :
    Inv useResourceDispatch t ∧ (∀ other ≠ id, Keeps other s t) ∧
      Inside id moved .asked serverNodeId (has ++ [kept row.toErResource]) done on t := by
  have moving := inside.moving
  have resources_eq (processorId : Int) : resources t.tables processorId = resources s.tables processorId ++
      if row.processorId = processorId then [row.toErResource] else [] := by
    subst is
    simp only [resources,Tables.resourcesOf,Tables.write,List.filter_append,List.map_append]
    by_cases own : row.processorId = processorId
    · simp [own]
    · simp [own]
  have elsewhere {processorId : Int} (other : processorId ≠ moved.processorId) :
      resources t.tables processorId = resources s.tables processorId := by
    rw [resources_eq,if_neg fun same => other (same.symm.trans mine),List.append_nil]
  have keys_eq : keys t.tables = keys s.tables ++ [row.toErResource.key] := by
    subst is
    simp [keys,Tables.write]
  have frozen (n : Int) : Frozen n s t := by
    subst is
    exact ⟨fun _ => rfl,fun _ => rfl,fun _ => rfl⟩
  obtain ⟨owner,there,owner_id,-⟩ := moving.row
  refine ⟨?_,fun other ne => ?_,?_⟩
  · constructor
    case owners =>
      rw [keys_eq]
      intro key member
      have same : t.tables.nextId = s.tables.nextId := by rw [is]; rfl
      rw [same]
      rcases List.mem_append.mp member with before | new
      · exact inv.owners key before
      · rw [List.mem_singleton.mp new]
        exact ⟨row.processorId,rfl,by rw [mine,← owner_id]; exact inv.ids owner there⟩
    case row =>
      intro other member
      have member : other ∈ s.tables.processors := by rw [is] at member; exact member
      have at_row := inv.row other member
      have charge : t.charge = s.charge := by rw [is]
      by_cases own : other.processorId = moved.processorId
      · have asked : s.charge other.processorId = .asked := by rw [own]; exact moving.charge
        obtain ⟨i,managed⟩ : ∃ i, MoveInv useResourceDispatch s i moved other := by
          obtain ⟨other',inside',moves⟩ := inv.moves id moved moving.moving
          obtain rfl := processor_unique inv.distinct member inside' (own.trans moves.processorId.symm)
          exact ⟨id,moves⟩
        refine ⟨fun unmanaged => ?_,by rw [is]; exact at_row.asked,fun stored => ?_,fun unmanaged => ?_,
          by rw [is]; exact at_row.settled,fun nothing => ?_⟩
        · rw [managed.managed] at unmanaged
          cases unmanaged
        · rw [charge,asked] at stored
          rcases stored with stored | stored <;> cases stored
        · rw [managed.managed] at unmanaged
          cases unmanaged
        · rw [charge,asked] at nothing
          cases nothing
      · refine ⟨by rw [charge]; exact at_row.unmanaged,by rw [is]; exact at_row.asked,?_,?_,by rw [is]; exact at_row.settled,?_⟩
        · rw [charge,elsewhere own]
          have asked : t.asked = s.asked := by rw [is]
          rw [asked]
          exact at_row.stored
        · rw [elsewhere own]
          exact at_row.bare
        · rw [charge]
          intro nothing key of
          have returned : t.returned = s.returned := by rw [is]
          have different : row.toErResource.key ≠ key := by
            rintro rfl
            exact own ((Option.some.inj of).symm.trans mine)
          rw [returned,keys_eq,List.count_append,List.count_singleton,if_neg (by simpa using different),Nat.add_zero]
          exact at_row.once nothing key of
    case moves =>
      intro i move moving'
      subst is
      obtain ⟨other,member,moves⟩ := inv.moves i move moving'
      exact ⟨other,member,moves.of_same rfl rfl⟩
    case most =>
      intro key
      have returned : t.returned = s.returned := by rw [is]
      rw [returned,keys_eq,List.count_append]
      exact Nat.le_trans (inv.most key) (Nat.le_add_right _ _)
    case books =>
      intro n free
      refine (inv.books n fun i own => ?_).frozen (frozen n)
      subst is
      exact free i own
    case distinct => subst is; exact inv.distinct
    case ids => subst is; exact inv.ids
    case fresh => subst is; exact inv.fresh
    case single => subst is; exact inv.single
    case returned => subst is; exact inv.returned
    case within => subst is; exact inv.within
  · have alone := inside.alone inv ne
    refine ⟨by subst is; rfl,by subst is; rfl,fun _ _ => by subst is; rfl,
      fun row member => ⟨row,by subst is; exact member,.refl row⟩,
      fun move busy => ⟨by subst is; rfl,by subst is; rfl,?_,fun _ _ => by subst is; rfl⟩,fun n _ => frozen n⟩
    rw [elsewhere (alone.1 move busy)]
  · refine ⟨⟨?_,?_,?_,?_,?_⟩,?_,?_,inside.books.frozen (frozen _),
      fun other ne same => (inside.others other ne same).frozen (frozen _)⟩
    · subst is; exact moving.moving
    · subst is; exact moving.charge
    · subst is; exact moving.row
    · rw [resources_eq,if_pos mine,List.map_append,moving.resources,List.map_singleton]
    · subst is; exact moving.returned
    · subst is; exact inside.owner
    · subst is; exact inside.only

theorem remark_step (inv : Inv useResourceDispatch s) (key : ResourceKey) (status : String)
    (is : t = { s with tables := s.tables.write (.updateResource key status) }) :
    Inv useResourceDispatch t ∧ ∀ i, Keeps i s t := by
  subst is
  exact inv.quiet ⟨.refl,(List.map_id' _).symm,rfl,rfl,rfl,rfl,fun _ _ => rfl,fun _ => resources_update key status,
    keys_update key status⟩ rfl rfl rfl

theorem return_step (inv : Inv useResourceDispatch s) (inside : Inside id moved old serverNodeId has done on s)
    (target : moved.target = .nothing) {key : ResourceKey} (mine : key.processorId = some moved.processorId)
    (next : done ++ [key] <+: has.map Prod.fst)
    (is : t = { s with
      returned := s.returned ++ [key]
      tables := s.tables.write (.updateResource key "return") }) :
    Inv useResourceDispatch t ∧ (∀ other ≠ id, Keeps other s t) ∧
      Inside id moved old serverNodeId has (done ++ [key]) on t := by
  have moving := inside.moving
  -- first the row, which changes nothing of the accounts, and then the history
  obtain ⟨inv',keeps⟩ := remark_step inv key "return" rfl
  have kept := inside.keeps (keeps id)
  have elsewhere {processorId : Int} (other : processorId ≠ moved.processorId) {key' : ResourceKey}
      (of : key'.processorId = some processorId) : (s.returned ++ [key]).count key' = s.returned.count key' := by
    have different : key ≠ key' := by
      rintro rfl
      exact other (Option.some.inj (of.symm.trans mine))
    rw [List.count_append,List.count_singleton,if_neg (by simpa using different),Nat.add_zero]
  obtain ⟨owner,there,moves⟩ := inv'.moves id moved kept.moving.moving
  have charged := moves.charged
  rw [moves.processorId] at charged
  subst is
  refine ⟨?_,fun other ne => ?_,?_⟩
  · refine ⟨inv'.distinct,inv'.ids,inv'.owners,inv'.fresh,fun other member => ?_,fun i move busy => ?_,inv'.single,?_,?_,
      inv'.within,fun n free => ?_⟩
    · have at_row := inv'.row other member
      refine ⟨at_row.unmanaged,at_row.asked,at_row.stored,at_row.bare,at_row.settled,fun nothing key' of => ?_⟩
      have apart : other.processorId ≠ moved.processorId := by
        intro same
        rw [same] at nothing
        exact charged nothing
      exact (elsewhere apart of).trans (at_row.once nothing key' of)
    · obtain ⟨other,member,moves⟩ := inv'.moves i move busy
      exact ⟨other,member,moves.of_same rfl rfl⟩
    · intro key' member
      rcases List.mem_append.mp member with before | new
      · exact inv'.returned key' before
      · rw [List.mem_singleton.mp new,mine,← moves.processorId]
        refine ⟨owner,there,rfl,.inr ⟨id,moving.moving.trans ?_⟩⟩
        rw [moves.processorId,← target]
    · intro key'
      by_cases of : key'.processorId = some moved.processorId
      · have total : (keys (s.tables.write (.updateResource key "return"))).count key' = (has.map Prod.fst).count key' := by
          rw [keys_count of,kept.moving.resources]
        have counted : (s.returned ++ [key]).count key' = (done ++ [key]).count key' := by
          rw [List.count_append,List.count_append,moving.returned key' of]
        exact counted ▸ total ▸ next.sublist.count_le key'
      · have different : key ≠ key' := by
          rintro rfl
          exact of mine
        have same : (s.returned ++ [key]).count key' = s.returned.count key' := by
          rw [List.count_append,List.count_singleton,if_neg (by simpa using different),Nat.add_zero]
        exact same ▸ inv'.most key'
    · have books := inv'.books n free
      exact ⟨books.preAllocated,books.allocated⟩
  · have alone := inside.alone inv ne
    have keeps := keeps other
    refine ⟨keeps.looked,keeps.moving,keeps.owner,keeps.rows,fun move busy => ?_,fun n own => ?_⟩
    · have untouched := keeps.untouched move busy
      exact ⟨untouched.charge,untouched.asked,untouched.resources,fun key' of => elsewhere (alone.1 move busy) of⟩
    · have frozen := keeps.frozen n own
      exact ⟨frozen.node,frozen.preAllocated,frozen.allocated⟩
  · refine ⟨⟨kept.moving.moving,kept.moving.charge,kept.moving.row,kept.moving.resources,fun key' of => ?_⟩,kept.owner,kept.only,
      ⟨kept.books.preAllocated,kept.books.allocated⟩,fun other ne same => ?_⟩
    · change (s.returned ++ [key]).count key' = _
      rw [List.count_append,List.count_append,moving.returned key' of]
    · have books := kept.others other ne same
      exact ⟨books.preAllocated,books.allocated⟩

/-- The move is over: the processor is charged anew, and the lock of the node is given back. -/
private structure Finished (id : ℕ) (moved : Move) (s t : State) : Prop where
  tables : t.tables = s.tables
  asked : t.asked = s.asked
  returned : t.returned = s.returned
  looked : t.looked = s.looked
  charge : t.charge = Function.update s.charge moved.processorId moved.target
  mine : t.moving id = none
  others : ∀ i ≠ id, t.moving i = s.moving i
  owner : ∀ i ≠ id, ∀ cache key, (t.locks cache key).owner = some i ↔ (s.locks cache key).owner = some i

section
variable (finished : Finished id moved s t)
include finished

private theorem Finished.charge_new : t.charge moved.processorId = moved.target := by
  rw [finished.charge,Function.update_self]

private theorem Finished.charge_old {processorId : Int} (other : processorId ≠ moved.processorId) :
    t.charge processorId = s.charge processorId := by
  rw [finished.charge,Function.update_of_ne other]

private theorem Finished.goes {i : ℕ} {move : Move} (busy : t.moving i = some move) : i ≠ id ∧ s.moving i = some move := by
  have ne : i ≠ id := by
    rintro rfl
    rw [finished.mine] at busy
    cases busy
  exact ⟨ne,(finished.others i ne).symm.trans busy⟩

variable (inv : Inv useResourceDispatch s)
include inv

private theorem Finished.charged_eq (moving : Moving id moved old serverNodeId has done s) (n : Int) (resourceType : String)
    (class_ : Charge) : charged t n resourceType class_ = charged s n resourceType class_ +
      if serverNodeId = n then shift old moved.target class_ * amount (s.asked moved.processorId) resourceType else 0 := by
  obtain ⟨row,there,is,node⟩ := moving.row
  have changed : weigh (fun row => row.serverNodeId = n ∧ t.charge row.processorId = class_)
      (fun row => amount (s.asked row.processorId) resourceType) s.tables.processors = charged s n resourceType class_ +
        ((if row.serverNodeId = n ∧ t.charge row.processorId = class_ then amount (s.asked row.processorId) resourceType else 0) -
          if row.serverNodeId = n ∧ s.charge row.processorId = class_ then amount (s.asked row.processorId) resourceType else 0) := by
    have same (other : SessionProcessor) (_ : other ∈ s.tables.processors) (different : other.processorId ≠ row.processorId) :
        decide (other.serverNodeId = n ∧ t.charge other.processorId = class_) =
          decide (other.serverNodeId = n ∧ s.charge other.processorId = class_) := by
      rw [finished.charge_old fun own => different (own.trans is.symm)]
    exact (weigh_change inv.distinct there same).trans (by simp only [charged,decide_eq_true_eq])
  rw [charged,finished.tables,finished.asked,changed,is,finished.charge_new,moving.charge,node]
  congr 1
  by_cases here : serverNodeId = n
  · simp only [here,true_and,if_true,shift]
    split <;> split <;> simp
  · simp [here]

private theorem Finished.frozen (moving : Moving id moved old serverNodeId has done s) {n : Int} (elsewhere : n ≠ serverNodeId) :
    Frozen n s t :=
  ⟨fun _ => by rw [finished.tables],
    fun _ => by rw [finished.charged_eq inv moving,if_neg (Ne.symm elsewhere),Int.add_zero],
    fun _ => by rw [finished.charged_eq inv moving,if_neg (Ne.symm elsewhere),Int.add_zero]⟩

private theorem Finished.admitted_le (moving : s.moving id = some moved) (n : Int) (resourceType : String) :
    t.admitted n resourceType ≤ s.admitted n resourceType := by
  obtain ⟨row,-,moves⟩ := inv.moves id moved moving
  rw [State.admitted,finished.tables,finished.asked]
  refine weigh_mono (fun other member counts => ?_) fun other member counts => ?_
  · simp only [decide_eq_true_eq] at counts ⊢
    refine ⟨counts.1,?_⟩
    by_cases own : other.processorId = moved.processorId
    · rw [own,← moves.processorId]
      exact moves.charged
    · rw [← finished.charge_old own]
      exact counts.2
  · simp only [decide_eq_true_eq] at counts
    exact amount_nonneg (fun resource inside' => ((inv.row other member).asked counts.2 resource inside').1) resourceType

private theorem Finished.row_moved {row : SessionProcessor} (moving : Moving id moved old serverNodeId has done s)
    (there : row ∈ s.tables.processors) (moves : MoveInv useResourceDispatch s id moved row)
    (stored : (resources s.tables moved.processorId).map portion = (s.asked moved.processorId).map portion)
    (returned : moved.target = .nothing → done = has.map Prod.fst) : RowInv useResourceDispatch t row := by
  have own := moves.processorId
  refine ⟨fun unmanaged => ?_,fun _ resource asks => ?_,fun _ => ?_,fun unmanaged => ?_,fun _ _ => ?_,fun nothing key of => ?_⟩
  · rw [moves.managed] at unmanaged
    cases unmanaged
  · rw [finished.asked] at asks
    obtain ⟨heavy,node,found,below⟩ := (inv.row row there).asked moves.charged resource asks
    rw [finished.tables]
    exact ⟨heavy,node,found,Int.le_trans (finished.admitted_le inv moving.moving _ _) below⟩
  · rw [finished.tables,finished.asked,own]
    exact stored
  · rw [moves.managed] at unmanaged
    cases unmanaged
  · rw [own,finished.charge_new]
    exact moves.target
  · rw [own,finished.charge_new] at nothing
    rw [own] at of
    rw [finished.returned,finished.tables,moving.returned key of,returned nothing,keys_count of,moving.resources]

private theorem Finished.row_other {row : SessionProcessor} (moving : s.moving id = some moved)
    (there : row ∈ s.tables.processors) (other : row.processorId ≠ moved.processorId) : RowInv useResourceDispatch t row := by
  have at_row := inv.row row there
  have charge := finished.charge_old other
  refine ⟨?_,fun charged resource asks => ?_,?_,?_,?_,?_⟩
  · rw [charge]
    exact at_row.unmanaged
  · rw [charge] at charged
    rw [finished.asked] at asks
    obtain ⟨heavy,node,found,below⟩ := at_row.asked charged resource asks
    rw [finished.tables]
    exact ⟨heavy,node,found,Int.le_trans (finished.admitted_le inv moving _ _) below⟩
  · rw [charge,finished.tables,finished.asked]
    exact at_row.stored
  · rw [finished.tables]
    exact at_row.bare
  · rw [charge]
    intro takes free
    refine at_row.settled takes fun i move busy same => ?_
    by_cases ne : i = id
    · subst ne
      cases busy.symm.trans moving
      exact other same.symm
    · exact free i move ((finished.others i ne).trans busy) same
  · rw [charge,finished.returned,finished.tables]
    exact at_row.once

private theorem Finished.moves_on (moving : s.moving id = some moved) (i : ℕ) (move : Move) (busy : t.moving i = some move) :
    ∃ row ∈ t.tables.processors, MoveInv useResourceDispatch t i move row := by
  obtain ⟨ne,before⟩ := finished.goes busy
  obtain ⟨row,member,moves⟩ := inv.moves i move before
  have other : row.processorId ≠ moved.processorId := fun same =>
    ne (inv.single i id move moved before moving (moves.processorId.symm.trans same))
  refine ⟨row,by rw [finished.tables]; exact member,moves.processorId,moves.managed,moves.target,?_,?_⟩
  · rw [finished.charge_old other]
    exact moves.charged
  · rw [finished.charge_old other]
    exact moves.under.imp_right (finished.owner i ne _ _).mpr

private theorem Finished.returned_by (moving : Moving id moved old serverNodeId has done s)
    (kept : moved.target ≠ .nothing → done = []) (key : ResourceKey) (member : key ∈ s.returned) :
    ∃ row ∈ s.tables.processors, key.processorId = some row.processorId ∧
      (t.charge row.processorId = .nothing ∨ ∃ i, t.moving i = some ⟨row.processorId,.nothing⟩) := by
  obtain ⟨row,inside,of,free⟩ := inv.returned key member
  refine ⟨row,inside,of,?_⟩
  by_cases own : row.processorId = moved.processorId
  · rw [own] at of
    have counted : 0 < done.count key := by
      rw [← moving.returned key of]
      exact List.count_pos_iff.mpr member
    rw [own,finished.charge_new]
    refine .inl ?_
    by_contra charges
    rw [kept charges] at counted
    exact Nat.lt_irrefl 0 counted
  · rw [finished.charge_old own]
    refine free.imp_right fun busy => ?_
    obtain ⟨i,busy⟩ := busy
    refine ⟨i,(finished.others i fun is => own ?_).trans busy⟩
    rw [is,moving.moving] at busy
    exact (congrArg Move.processorId (Option.some.inj busy)).symm

private theorem Finished.books {counted : List ErResource}
    (inside : Inside id moved old serverNodeId has done (away old moved.target counted) s)
    (amounts : ∀ resourceType, amount counted resourceType = amount (s.asked moved.processorId) resourceType)
    (n : Int) (free : ∀ i, (t.locks .nodeResource (toString n)).owner = some i → t.moving i = none) : Books t n nowhere := by
  have charged_eq := finished.charged_eq inv inside.moving
  by_cases here : n = serverNodeId
  · subst here
    refine ⟨fun resourceType stored found => ?_,fun resourceType stored found => ?_⟩
    · rw [finished.tables] at found
      rw [inside.books.preAllocated resourceType stored found,charged_eq,if_pos rfl,away,amounts]
      exact (Int.add_zero _).symm
    · rw [finished.tables] at found
      rw [inside.books.allocated resourceType stored found,charged_eq,if_pos rfl,away,amounts]
      exact (Int.add_zero _).symm
  · have frozen := finished.frozen inv inside.moving here
    by_cases same : toString n = toString serverNodeId
    · exact (inside.others n here same).frozen frozen
    · refine (inv.books n fun i own => ?_).frozen frozen
      have ne : i ≠ id := fun is => inside.only _ same (is ▸ own)
      rw [← finished.others i ne]
      exact free i ((finished.owner i ne _ _).mpr own)

end

theorem leave_step (inv : Inv useResourceDispatch s) {counted : List ErResource}
    (inside : Inside id moved old serverNodeId has done (away old moved.target counted) s)
    (amounts : ∀ resourceType, amount counted resourceType = amount (s.asked moved.processorId) resourceType)
    (stored : (resources s.tables moved.processorId).map portion = (s.asked moved.processorId).map portion)
    (returned : moved.target = .nothing → done = has.map Prod.fst) (kept : moved.target ≠ .nothing → done = [])
    {lock : ReentrantLock ℕ} (unlocked : (s.locks .nodeResource (toString serverNodeId)).unlock id = some lock)
    (is : t = ({ s.move id none with charge := Function.update s.charge moved.processorId moved.target }).setLock
      .nodeResource (toString serverNodeId) lock) :
    Inv useResourceDispatch t ∧ (∀ other ≠ id, Keeps other s t) ∧ t.moving id = none := by
  have moving := inside.moving
  obtain ⟨row,there,moves⟩ := inv.moves id moved moving.moving
  have finished : Finished id moved s t := by
    subst is
    exact ⟨rfl,rfl,rfl,rfl,rfl,Function.update_self _ _ _,fun i ne => Function.update_of_ne ne _ _,
      fun i ne cache key => owner_setLock i (ReentrantLock.unlock_others ne unlocked) cache key⟩
  refine ⟨?_,fun other ne => ?_,finished.mine⟩
  · constructor
    case distinct => rw [finished.tables]; exact inv.distinct
    case ids => rw [finished.tables]; exact inv.ids
    case owners => rw [finished.tables]; exact inv.owners
    case fresh =>
      intro processorId beyond
      rw [finished.tables] at beyond
      have other : processorId ≠ moved.processorId := by
        have := inv.ids row there
        rw [← moves.processorId]
        omega
      rw [finished.charge_old other]
      exact inv.fresh processorId beyond
    case row =>
      intro other member
      rw [finished.tables] at member
      by_cases own : other.processorId = moved.processorId
      · obtain rfl := processor_unique inv.distinct there member (moves.processorId.trans own.symm)
        exact finished.row_moved inv moving there moves stored returned
      · exact finished.row_other inv moving.moving member own
    case moves => exact finished.moves_on inv moving.moving
    case single =>
      intro i j move other first second
      exact inv.single i j move other (finished.goes first).2 (finished.goes second).2
    case returned =>
      rw [finished.returned,finished.tables]
      exact finished.returned_by inv moving kept
    case most => rw [finished.returned,finished.tables]; exact inv.most
    case within => rw [finished.tables]; exact inv.within
    case books => exact finished.books inv inside amounts
  · have alone := inside.alone inv ne
    refine ⟨by rw [finished.looked],finished.others other ne,finished.owner other ne,
      fun row member => ⟨row,by rw [finished.tables]; exact member,.refl row⟩,
      fun move busy => ⟨finished.charge_old (alone.1 move busy),by rw [finished.asked],by rw [finished.tables],
        fun _ _ => by rw [finished.returned]⟩,
      fun n own => finished.frozen inv moving (alone.2 n own)⟩

end

end Eggroll.Cluster.NodeAccounts
