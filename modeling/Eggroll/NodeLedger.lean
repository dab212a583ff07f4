import Eggroll.NodeAccounts
import Eggroll.SessionCalls

/-! What holds of the counters of the nodes in every state, what a change of a processor can
rely on while the others take steps, and what each call does to both. A processor stays
charged to its node as it was until the change has left the lock of the node. -/
namespace Eggroll.Cluster.NodeAccounts
open Library
open Program hiding call

/-- What a counter sees of a resource. -/
def portion (resource : ErResource) : String × Int := (resource.resourceType,resource.allocated)

/-- The kinds of the rows of resources. -/
def keys (tables : Tables) : List ResourceKey := tables.processorResources.map fun row => row.toErResource.key

theorem meets_iff {key : ResourceKey} {row : ProcessorResource} : key.meets row = true ↔ row.toErResource.key = key := by
  obtain ⟨processorId,sessionId,serverNodeId,resourceType⟩ := key
  simp only [ResourceKey.meets,ErResource.key,ProcessorResource.toErResource,decide_eq_true_eq,ResourceKey.mk.injEq]
  constructor
  · rintro ⟨rfl,rfl,rfl,rfl⟩
    exact ⟨rfl,rfl,rfl,rfl⟩
  · rintro ⟨rfl,rfl,rfl,rfl⟩
    exact ⟨rfl,rfl,rfl,rfl⟩

theorem amount_portion {first second : List ErResource} (same : first.map portion = second.map portion)
    (resourceType : String) : amount first resourceType = amount second resourceType := by
  have by_portion (resources : List ErResource) : amount resources resourceType =
      weigh (fun part => part.1 = resourceType) Prod.snd (resources.map portion) := by
    rw [weigh_map]
    rfl
  rw [by_portion,by_portion,same]

theorem portion_of_kept {first second : List ErResource} (same : first.map kept = second.map kept) :
    first.map portion = second.map portion := by
  have through : portion = (fun pair : ResourceKey × Int => (pair.1.resourceType,pair.2)) ∘ kept := rfl
  rw [through,← List.map_map,← List.map_map,same]

theorem amount_append (first second : List ErResource) (resourceType : String) :
    amount (first ++ second) resourceType = amount first resourceType + amount second resourceType :=
  weigh_append second

theorem amount_nonneg {resources : List ErResource} (heavy : ∀ resource ∈ resources, 0 ≤ resource.allocated)
    (resourceType : String) : 0 ≤ amount resources resourceType :=
  weigh_nonneg fun resource member _ => heavy resource member

theorem amount_absent {resources : List ErResource} {resourceType : String}
    (absent : ∀ resource ∈ resources, resource.resourceType ≠ resourceType) : amount resources resourceType = 0 := by
  have none : weigh (fun resource : ErResource => resource.resourceType = resourceType) ErResource.allocated resources =
      weigh (fun _ => false) ErResource.allocated resources :=
    weigh_congr (fun resource member => by simpa using absent resource member) fun _ _ _ => rfl
  exact none.trans (by simp [weigh])

section Tables
variable {tables : Tables} {processorId : Int}

theorem processor_unique (distinct : (tables.processors.map SessionProcessor.processorId).Nodup)
    {row other : SessionProcessor} (first : row ∈ tables.processors) (second : other ∈ tables.processors)
    (same : row.processorId = other.processorId) : row = other :=
  List.inj_on_of_nodup_map distinct first second same

theorem node_written (tables : Tables) (row : NodeResource) (serverNodeId : Int) (resourceType : String) :
    (tables.write (.updateNodeResource row)).nodeResource serverNodeId resourceType =
      if row.serverNodeId = serverNodeId ∧ row.resourceType = resourceType then
        (tables.nodeResource serverNodeId resourceType).map fun _ => row
      else tables.nodeResource serverNodeId resourceType := by
  simp only [Tables.nodeResource,Tables.write]
  induction tables.nodeResources with
  | nil => split <;> rfl
  | cons other rest ih =>
    rw [List.map_cons,List.find?_cons,List.find?_cons]
    by_cases meets : other.serverNodeId = row.serverNodeId ∧ other.resourceType = row.resourceType
    · rw [if_pos meets,meets.1,meets.2]
      by_cases here : row.serverNodeId = serverNodeId ∧ row.resourceType = resourceType
      · simp [here]
      · simpa [here] using ih
    · rw [if_neg meets]
      by_cases here : other.serverNodeId = serverNodeId ∧ other.resourceType = resourceType
      · have elsewhere : ¬ (row.serverNodeId = serverNodeId ∧ row.resourceType = resourceType) := by
          rintro ⟨rfl,rfl⟩
          exact meets here
        simp [here,elsewhere]
      · simpa [here] using ih

theorem resources_update (key : ResourceKey) (status : String) :
    (resources (tables.write (.updateResource key status)) processorId).map kept =
      (resources tables processorId).map kept := by
  let update (row : ProcessorResource) : ProcessorResource :=
    if key.meets row then { row with status := status } else row
  have own : (fun row : ProcessorResource => decide (row.processorId = processorId)) ∘ update =
      fun row => decide (row.processorId = processorId) := by
    funext row
    simp only [Function.comp_apply,update]
    split <;> rfl
  have same (row : ProcessorResource) : kept (update row).toErResource = kept row.toErResource := by
    simp only [update]
    split <;> rfl
  simp only [resources,Tables.resourcesOf,Tables.write,List.filter_map]
  rw [own,List.map_map,List.map_map,List.map_map]
  exact List.map_congr_left fun row _ => same row

theorem keys_update (key : ResourceKey) (status : String) :
    keys (tables.write (.updateResource key status)) = keys tables := by
  simp only [keys,Tables.write,List.map_map]
  refine List.map_congr_left fun row _ => ?_
  simp only [Function.comp_apply]
  split <;> rfl

theorem keys_count {key : ResourceKey} (is : key.processorId = some processorId) :
    (keys tables).count key = (((resources tables processorId).map kept).map Prod.fst).count key := by
  simp only [keys,resources,Tables.resourcesOf]
  induction tables.processorResources with
  | nil => rfl
  | cons row rest ih =>
    rw [List.map_cons,List.count_cons,List.filter_cons,ih]
    by_cases own : row.processorId = processorId
    · simp [own,List.count_cons,kept]
    · have other : row.toErResource.key ≠ key := by
        rintro rfl
        exact own (Option.some.inj is)
      simp [own,other]

end Tables

def charged (s : State) (serverNodeId : Int) (resourceType : String) (charge : Charge) : Int :=
  weigh (fun row => row.serverNodeId = serverNodeId ∧ s.charge row.processorId = charge)
    (fun row => amount (s.asked row.processorId) resourceType) s.tables.processors

/-- The counters of a node are what it is charged with and what is on its way. -/
structure Books (s : State) (serverNodeId : Int) (away : Charge → String → Int) : Prop where
  preAllocated : ∀ resourceType row, s.tables.nodeResource serverNodeId resourceType = some row →
    row.preAllocated = charged s serverNodeId resourceType .preAllocated + away .preAllocated resourceType
  allocated : ∀ resourceType row, s.tables.nodeResource serverNodeId resourceType = some row →
    row.allocated = charged s serverNodeId resourceType .allocated + away .allocated resourceType

def nowhere : Charge → String → Int := fun _ _ => 0

/-- The counters are within the node. -/
structure Within (row : NodeResource) : Prop where
  preAllocated : 0 ≤ row.preAllocated ∧ row.preAllocated ≤ row.total
  allocated : 0 ≤ row.allocated ∧ row.allocated ≤ row.total

section
variable (useResourceDispatch : Bool)

abbrev managed (row : SessionProcessor) : Bool := checkNeedChangeResource useResourceDispatch row.toErProcessor

/-- What holds of one processor: it takes part where it is managed, its resources are left on
its node and are the stored ones once they are charged; without a change under way its charge
is that of its status; and what is not charged has been returned. -/
structure RowInv (s : State) (row : SessionProcessor) : Prop where
  unmanaged : managed useResourceDispatch row = false → s.charge row.processorId = .nothing
  asked : s.charge row.processorId ≠ .nothing → ∀ resource ∈ s.asked row.processorId, 0 ≤ resource.allocated ∧
    ∃ node, s.tables.nodeResource row.serverNodeId resource.resourceType = some node ∧
      s.admitted row.serverNodeId resource.resourceType ≤ node.total
  stored : s.charge row.processorId = .preAllocated ∨ s.charge row.processorId = .allocated →
    (resources s.tables row.processorId).map portion = (s.asked row.processorId).map portion
  bare : managed useResourceDispatch row = false → resources s.tables row.processorId = []
  settled : managed useResourceDispatch row = true →
    (∀ id moved, s.moving id = some moved → moved.processorId ≠ row.processorId) →
    s.charge row.processorId = chargeOf row.status
  once : s.charge row.processorId = .nothing → ∀ key, key.processorId = some row.processorId →
    s.returned.count key = (keys s.tables).count key

/-- What holds of a change under way: the processor is charged as before, and it is either a
new one or under the lock of its session. -/
structure MoveInv (s : State) (id : ℕ) (moved : Move) (row : SessionProcessor) : Prop where
  processorId : row.processorId = moved.processorId
  managed : managed useResourceDispatch row = true
  target : moved.target = chargeOf row.status
  charged : s.charge row.processorId ≠ .nothing
  under : s.charge row.processorId = .asked ∨ (s.locks .processor ("PK_" ++ row.sessionId)).owner = some id

structure Inv (s : State) : Prop where
  distinct : (s.tables.processors.map SessionProcessor.processorId).Nodup
  ids : ∀ row ∈ s.tables.processors, row.processorId < s.tables.nextId
  owners : ∀ key ∈ keys s.tables, ∃ processorId, key.processorId = some processorId ∧ processorId < s.tables.nextId
  fresh : ∀ processorId : Int, s.tables.nextId ≤ processorId → s.charge processorId = .nothing
  row : ∀ row ∈ s.tables.processors, RowInv useResourceDispatch s row
  moves : ∀ id moved, s.moving id = some moved → ∃ row ∈ s.tables.processors, MoveInv useResourceDispatch s id moved row
  single : ∀ i j moved other, s.moving i = some moved → s.moving j = some other →
    moved.processorId = other.processorId → i = j
  returned : ∀ key ∈ s.returned, ∃ row ∈ s.tables.processors, key.processorId = some row.processorId ∧
    (s.charge row.processorId = .nothing ∨ ∃ id, s.moving id = some ⟨row.processorId,.nothing⟩)
  most : ∀ key, s.returned.count key ≤ (keys s.tables).count key
  within : ∀ serverNodeId resourceType node, s.tables.nodeResource serverNodeId resourceType = some node → Within node
  books : ∀ serverNodeId, (∀ id, (s.locks .nodeResource (toString serverNodeId)).owner = some id → s.moving id = none) →
    Books s serverNodeId nowhere

end

/-- The row of the same processor. -/
structure SameProcessor (row other : SessionProcessor) : Prop where
  processorId : other.processorId = row.processorId
  sessionId : other.sessionId = row.sessionId
  serverNodeId : other.serverNodeId = row.serverNodeId
  processorType : other.processorType = row.processorType

theorem SameProcessor.refl (row : SessionProcessor) : SameProcessor row row := ⟨rfl,rfl,rfl,rfl⟩

theorem SameProcessor.trans {first second third : SessionProcessor} (one : SameProcessor first second)
    (two : SameProcessor second third) : SameProcessor first third :=
  ⟨two.processorId.trans one.processorId,two.sessionId.trans one.sessionId,two.serverNodeId.trans one.serverNodeId,
    two.processorType.trans one.processorType⟩

/-- What is charged of a processor, and what is stored and returned of it, has not changed. -/
structure Untouched (processorId : Int) (s t : State) : Prop where
  charge : t.charge processorId = s.charge processorId
  asked : t.asked processorId = s.asked processorId
  resources : (resources t.tables processorId).map kept = (resources s.tables processorId).map kept
  returned : ∀ key, key.processorId = some processorId → t.returned.count key = s.returned.count key

/-- Neither the counters of a node nor what it is charged with has changed. -/
structure Frozen (serverNodeId : Int) (s t : State) : Prop where
  node : ∀ resourceType, t.tables.nodeResource serverNodeId resourceType = s.tables.nodeResource serverNodeId resourceType
  preAllocated : ∀ resourceType, charged t serverNodeId resourceType .preAllocated =
    charged s serverNodeId resourceType .preAllocated
  allocated : ∀ resourceType, charged t serverNodeId resourceType .allocated =
    charged s serverNodeId resourceType .allocated

/-- What a request can rely on while others take steps: its history and its locks are its own,
processors stay what they are, nobody touches the one that it changes, and nobody writes to a
node whose lock it has. -/
structure Keeps (id : ℕ) (s t : State) : Prop where
  looked : t.looked id = s.looked id
  moving : t.moving id = s.moving id
  owner : ∀ cache key, (t.locks cache key).owner = some id ↔ (s.locks cache key).owner = some id
  rows : ∀ row ∈ s.tables.processors, ∃ other ∈ t.tables.processors, SameProcessor row other
  untouched : ∀ moved, s.moving id = some moved → Untouched moved.processorId s t
  frozen : ∀ serverNodeId, (s.locks .nodeResource (toString serverNodeId)).owner = some id → Frozen serverNodeId s t

section
variable {id : ℕ} {s t u : State} {processorId serverNodeId : Int} {away : Charge → String → Int}

theorem Untouched.refl (processorId : Int) (s : State) : Untouched processorId s s := ⟨rfl,rfl,rfl,fun _ _ => rfl⟩

theorem Untouched.trans (first : Untouched processorId s t) (second : Untouched processorId t u) :
    Untouched processorId s u :=
  ⟨second.charge.trans first.charge,second.asked.trans first.asked,second.resources.trans first.resources,
    fun key is => (second.returned key is).trans (first.returned key is)⟩

theorem Frozen.refl (serverNodeId : Int) (s : State) : Frozen serverNodeId s s := ⟨fun _ => rfl,fun _ => rfl,fun _ => rfl⟩

theorem Frozen.trans (first : Frozen serverNodeId s t) (second : Frozen serverNodeId t u) : Frozen serverNodeId s u :=
  ⟨fun type => (second.node type).trans (first.node type),
    fun type => (second.preAllocated type).trans (first.preAllocated type),
    fun type => (second.allocated type).trans (first.allocated type)⟩

theorem Books.frozen (books : Books s serverNodeId away) (frozen : Frozen serverNodeId s t) : Books t serverNodeId away where
  preAllocated type row found := by
    rw [frozen.node] at found
    rw [frozen.preAllocated]
    exact books.preAllocated type row found
  allocated type row found := by
    rw [frozen.node] at found
    rw [frozen.allocated]
    exact books.allocated type row found

theorem Keeps.refl (id : ℕ) (s : State) : Keeps id s s :=
  ⟨rfl,rfl,fun _ _ => Iff.rfl,fun row member => ⟨row,member,.refl row⟩,fun _ _ => .refl _ s,fun _ _ => .refl _ s⟩

theorem Keeps.trans (first : Keeps id s t) (second : Keeps id t u) : Keeps id s u where
  looked := second.looked.trans first.looked
  moving := second.moving.trans first.moving
  owner cache key := (second.owner cache key).trans (first.owner cache key)
  rows row member := by
    obtain ⟨middle,inside,same⟩ := first.rows row member
    obtain ⟨other,there,same'⟩ := second.rows middle inside
    exact ⟨other,there,same.trans same'⟩
  untouched moved is := (first.untouched moved is).trans (second.untouched moved (first.moving.trans is))
  frozen serverNodeId own := (first.frozen serverNodeId own).trans (second.frozen serverNodeId ((first.owner _ _).mpr own))

variable (useResourceDispatch : Bool)

def contract (id : ℕ) : Program.Contract State where
  invariant := Inv useResourceDispatch
  rely := Keeps id
  guarantee s t := ∀ other ≠ id, Keeps other s t
  refl := .refl id
  trans := .trans

/-- A request that has not begun. -/
structure Fresh (id : ℕ) (s : State) : Prop where
  looked : s.looked id = none
  moving : s.moving id = none
  outside : ∀ cache key, (s.locks cache key).owner ≠ some id

theorem Fresh.keeps (moved : Keeps id s t) (fresh : Fresh id s) : Fresh id t :=
  ⟨moved.looked.trans fresh.looked,moved.moving.trans fresh.moving,
    fun cache key own => fresh.outside cache key ((moved.owner cache key).mp own)⟩

theorem fit : Pool.Fit (Inv useResourceDispatch) (contract useResourceDispatch) Fresh where
  same _ := rfl
  others other _ _ guaranteed := guaranteed _ other
  fresh := Fresh.keeps

end

section
variable {useResourceDispatch : Bool} {s t : State} {id : ℕ} {f : SessionProcessor → SessionProcessor}

private theorem charged_map (same : ∀ row, SameProcessor row (f row)) (processors : t.tables.processors = s.tables.processors.map f)
    (charge : t.charge = s.charge) (asked : t.asked = s.asked) (serverNodeId : Int) (resourceType : String)
    (on : Charge) : charged t serverNodeId resourceType on = charged s serverNodeId resourceType on := by
  rw [charged,processors,weigh_map,charge,asked]
  refine weigh_congr (fun row _ => ?_) fun row _ _ => ?_
  · simp only [Function.comp_apply,(same row).serverNodeId,(same row).processorId]
  · simp only [Function.comp_apply,(same row).processorId]

private theorem admitted_map (same : ∀ row, SameProcessor row (f row)) (processors : t.tables.processors = s.tables.processors.map f)
    (charge : t.charge = s.charge) (asked : t.asked = s.asked) (serverNodeId : Int) (resourceType : String) :
    t.admitted serverNodeId resourceType = s.admitted serverNodeId resourceType := by
  rw [State.admitted,processors,weigh_map,charge,asked]
  refine weigh_congr (fun row _ => ?_) fun row _ _ => ?_
  · simp only [Function.comp_apply,(same row).serverNodeId,(same row).processorId]
  · simp only [Function.comp_apply,(same row).processorId]

theorem managed_same {row other : SessionProcessor} (same : SameProcessor row other) :
    managed useResourceDispatch other = managed useResourceDispatch row := by
  simp only [managed,checkNeedChangeResource,SessionProcessor.toErProcessor,same.processorType]

/-- Nothing that is charged, stored or returned has changed, and processors are what they were
but for their statuses. -/
structure Calm (f : SessionProcessor → SessionProcessor) (s t : State) : Prop where
  same : ∀ row, SameProcessor row (f row)
  processors : t.tables.processors = s.tables.processors.map f
  nextId : t.tables.nextId = s.tables.nextId
  charge : t.charge = s.charge
  asked : t.asked = s.asked
  returned : t.returned = s.returned
  node : ∀ serverNodeId resourceType, t.tables.nodeResource serverNodeId resourceType =
    s.tables.nodeResource serverNodeId resourceType
  resources : ∀ processorId, (resources t.tables processorId).map kept = (resources s.tables processorId).map kept
  keys : keys t.tables = keys s.tables

theorem Calm.untouched (calm : Calm f s t) (processorId : Int) : Untouched processorId s t :=
  ⟨congrFun calm.charge _,congrFun calm.asked _,calm.resources _,fun _ _ => by rw [calm.returned]⟩

theorem Calm.frozen (calm : Calm f s t) (serverNodeId : Int) : Frozen serverNodeId s t :=
  ⟨calm.node _,fun _ => charged_map calm.same calm.processors calm.charge calm.asked _ _ _,
    fun _ => charged_map calm.same calm.processors calm.charge calm.asked _ _ _⟩

theorem Calm.keeps (calm : Calm f s t) (looked : t.looked id = s.looked id) (moving : t.moving id = s.moving id)
    (owner : ∀ cache key, (t.locks cache key).owner = some id ↔ (s.locks cache key).owner = some id) : Keeps id s t where
  looked := looked
  moving := moving
  owner := owner
  rows row member := ⟨f row,by rw [calm.processors]; exact List.mem_map_of_mem member,calm.same row⟩
  untouched _ _ := calm.untouched _
  frozen _ _ := calm.frozen _

theorem Inv.calm (inv : Inv useResourceDispatch s) (calm : Calm f s t)
    (goes : ∀ i moved, s.moving i = some moved → t.moving i = some moved)
    (settled : ∀ row ∈ s.tables.processors, managed useResourceDispatch row = true →
      (∀ i moved, t.moving i = some moved → moved.processorId ≠ row.processorId) → (f row).status = row.status)
    (moves : ∀ i moved, t.moving i = some moved →
      ∃ row ∈ s.tables.processors, MoveInv useResourceDispatch t i moved (f row))
    (single : ∀ i j moved other, t.moving i = some moved → t.moving j = some other →
      moved.processorId = other.processorId → i = j)
    (later : ∀ key i, (s.locks .nodeResource key).owner = some i → s.moving i ≠ none →
      (t.locks .nodeResource key).owner = some i) :
    Inv useResourceDispatch t where
  distinct := by
    have ids : t.tables.processors.map SessionProcessor.processorId =
        s.tables.processors.map SessionProcessor.processorId := by
      rw [calm.processors,List.map_map]
      exact List.map_congr_left fun row _ => (calm.same row).processorId
    rw [ids]
    exact inv.distinct
  ids row member := by
    rw [calm.processors] at member
    obtain ⟨other,inside,rfl⟩ := List.mem_map.mp member
    rw [calm.nextId,(calm.same other).processorId]
    exact inv.ids other inside
  owners := by
    rw [calm.keys,calm.nextId]
    exact inv.owners
  fresh := by
    rw [calm.nextId,calm.charge]
    exact inv.fresh
  row row member := by
    rw [calm.processors] at member
    obtain ⟨other,inside,rfl⟩ := List.mem_map.mp member
    have at_row := inv.row other inside
    have same := calm.same other
    refine ⟨?_,?_,?_,?_,?_,?_⟩
    · rw [managed_same same,same.processorId,calm.charge]
      exact at_row.unmanaged
    · rw [same.processorId,same.serverNodeId,calm.charge,calm.asked]
      intro on resource member
      rw [calm.node,admitted_map calm.same calm.processors calm.charge calm.asked]
      exact at_row.asked on resource member
    · rw [same.processorId,calm.charge,calm.asked,portion_of_kept (calm.resources _)]
      exact at_row.stored
    · rw [managed_same same,same.processorId]
      intro unmanaged
      have none := calm.resources other.processorId
      rw [at_row.bare unmanaged] at none
      exact List.map_eq_nil_iff.mp none
    · rw [managed_same same,same.processorId,calm.charge]
      intro takes still
      rw [settled other inside takes still]
      exact at_row.settled takes fun i moved is => still i moved (goes i moved is)
    · rw [same.processorId,calm.charge,calm.returned,calm.keys]
      exact at_row.once
  moves i moved is := by
    obtain ⟨row,member,moves⟩ := moves i moved is
    exact ⟨f row,by rw [calm.processors]; exact List.mem_map_of_mem member,moves⟩
  single := single
  returned key member := by
    rw [calm.returned] at member
    obtain ⟨row,inside,is,free⟩ := inv.returned key member
    refine ⟨f row,by rw [calm.processors]; exact List.mem_map_of_mem inside,?_⟩
    rw [(calm.same row).processorId,calm.charge]
    exact ⟨is,free.imp id fun ⟨i,moved⟩ => ⟨i,goes i _ moved⟩⟩
  most key := by
    rw [calm.returned,calm.keys]
    exact inv.most key
  within serverNodeId resourceType node found := by
    rw [calm.node] at found
    exact inv.within serverNodeId resourceType node found
  books serverNodeId idle := by
    refine Books.frozen (inv.books serverNodeId fun i own => ?_) (calm.frozen serverNodeId)
    by_contra busy
    have mine := later _ i own busy
    have none := idle i mine
    cases moving : s.moving i with
    | none => exact busy moving
    | some moved =>
      rw [goes i moved moving] at none
      cases none

end

section
variable {useResourceDispatch : Bool} {requests : ℕ → Request} {s t : State} {id : ℕ} {env : Env} {op : Op}
  {answer : Except Failure (Ans op)} {cache : LockCache} {key : String} {lock : ReentrantLock ℕ}

def locking : Op → Bool
  | .lock _ _ | .unLock _ _ => true
  | _ => false

theorem serve_cases (other : locking op = false)
    (served : State.serve useResourceDispatch requests id s op env = some (t,answer)) :
    (t = s ∧ (∃ e, answer = .error e) ∧ (env.fails = true ∨ s.tables.refuses op = true)) ∨
      (answer = .ok (s.tables.answer env op) ∧
        t = { s.note useResourceDispatch requests id op with tables := s.tables.write op }) := by
  have answered {tables : Tables} {a : Ans op} (is : s.tables.serve op env = some (tables,.ok a)) :
      State.serve useResourceDispatch requests id s op env =
        some ({ s.note useResourceDispatch requests id op with tables := tables },.ok a) := by
    cases op with
    | lock | unLock => cases other
    | _ => simp only [State.serve,is]
  have failed {tables : Tables} {e : Failure} (is : s.tables.serve op env = some (tables,.error e)) :
      State.serve useResourceDispatch requests id s op env = some ({ s with tables := tables },.error e) := by
    cases op with
    | lock | unLock => cases other
    | _ => simp only [State.serve,is]
  cases failing : (if env.fails then Tables.failure op else none) with
  | some e =>
    have raised : s.tables.serve op env = some (s.tables,.error e) := by rw [Tables.serve,failing]
    rw [failed raised] at served
    cases served
    refine .inl ⟨rfl,⟨e,rfl⟩,.inl ?_⟩
    by_contra works
    rw [if_neg works] at failing
    cases failing
  | none =>
    cases refused : s.tables.refuses op with
    | true =>
      rw [failed (by rw [Tables.serve,failing,refused]; rfl)] at served
      cases served
      exact .inl ⟨rfl,⟨_,rfl⟩,.inr rfl⟩
    | false =>
      rw [answered (by rw [Tables.serve,failing,refused]; rfl)] at served
      cases served
      exact .inr ⟨rfl,rfl⟩

theorem service_cases (served : service useResourceDispatch requests id s op env = some (t,answer)) :
    orderly useResourceDispatch requests id s op env = true ∧
      State.serve useResourceDispatch requests id s op env = some (t,answer) := by
  unfold service Service.restrict at served
  split at served
  case isTrue allowed => exact ⟨allowed,served⟩
  case isFalse => cases served

theorem moving_works (allowed : orderly useResourceDispatch requests id s op env = true) {moved : Move}
    (moving : s.moving id = some moved) : env.fails = false := by
  simp only [orderly,moving,Option.isNone_some,Bool.false_or,Bool.and_eq_true,Bool.not_eq_true'] at allowed
  exact allowed.1

/-- The calls that only read, and those that concern neither processors nor nodes. -/
def idle : Op → Bool
  | .getSession _ | .listProcessors _ | .listAllResources | .listResources _ | .listOptions _ | .getNodeResource _ _
  | .listHealthyNodes | .addResidualHeartbeat _ | .callback | .submit _ | .polls | .await => true
  | _ => false

private theorem idle_served (still : idle op = true)
    (served : State.serve useResourceDispatch requests id s op env = some (t,answer)) :
    t = s ∧ (answer = .ok (s.tables.answer env op) ∨ (∃ e, answer = .error e) ∧ env.fails = true) := by
  have other : locking op = false := by
    cases op with
    | lock | unLock => cases still
    | _ => rfl
  have granted : s.tables.refuses op = false := by
    cases op with
    | saveSession => cases still
    | _ => rfl
  rcases serve_cases other served with ⟨rfl,failed,fails⟩ | ⟨answered,rfl⟩
  · rw [granted] at fails
    exact ⟨rfl,.inr ⟨failed,fails.resolve_right (by simp)⟩⟩
  · refine ⟨?_,.inl answered⟩
    cases op with
    | getSession | listProcessors | listAllResources | listResources | listOptions | getNodeResource
    | listHealthyNodes | addResidualHeartbeat | callback | submit | polls | await => rfl
    | _ => cases still

theorem Calm.of_same (tables : t.tables = s.tables) (charge : t.charge = s.charge) (asked : t.asked = s.asked)
    (returned : t.returned = s.returned) : Calm (fun row => row) s t :=
  ⟨.refl,by rw [tables,List.map_id'],by rw [tables],charge,asked,returned,fun _ _ => by rw [tables],
    fun _ => by rw [tables],by rw [tables]⟩

theorem Inv.still (inv : Inv useResourceDispatch s) (calm : Calm (fun row => row) s t) (moving : t.moving = s.moving)
    (locks : ∀ cache key i, (s.locks cache key).owner = some i → s.moving i ≠ none →
      (t.locks cache key).owner = some i) : Inv useResourceDispatch t := by
  refine inv.calm calm (fun i moved is => by rw [moving]; exact is) (fun _ _ _ _ => rfl) (fun i moved is => ?_)
    (by rw [moving]; exact inv.single) fun key i own busy => locks _ _ i own busy
  rw [moving] at is
  obtain ⟨row,member,moves⟩ := inv.moves i moved is
  refine ⟨row,member,moves.processorId,moves.managed,moves.target,?_,?_⟩
  · rw [calm.charge]
    exact moves.charged
  · rw [calm.charge]
    refine moves.under.imp_right fun own => locks _ _ i own ?_
    rw [is]
    exact Option.some_ne_none moved

theorem owner_setLock (i : ℕ) (owner : lock.owner = some i ↔ (s.locks cache key).owner = some i) (cache' : LockCache)
    (key' : String) :
    ((s.setLock cache key lock).locks cache' key').owner = some i ↔ (s.locks cache' key').owner = some i := by
  by_cases same : cache' = cache
  · subst same
    by_cases here : key' = key
    · subst here
      simpa [State.setLock] using owner
    · simp [State.setLock,Function.update_of_ne here]
  · simp [State.setLock,Function.update_of_ne same]

theorem setLock_other {cache' : LockCache} {key' : String} (other : ¬ (cache' = cache ∧ key' = key)) :
    (s.setLock cache key lock).locks cache' key' = s.locks cache' key' := by
  by_cases same : cache' = cache
  · subst same
    have elsewhere : key' ≠ key := fun is => other ⟨rfl,is⟩
    simp [State.setLock,Function.update_of_ne elsewhere]
  · simp [State.setLock,Function.update_of_ne same]

private theorem setLock_step (id : ℕ) (inv : Inv useResourceDispatch s)
    (others : ∀ i ≠ id, lock.owner = some i ↔ (s.locks cache key).owner = some i)
    (own : s.moving id ≠ none → (s.locks cache key).owner = some id → lock.owner = some id) :
    Inv useResourceDispatch (s.setLock cache key lock) ∧ ∀ other ≠ id, Keeps other s (s.setLock cache key lock) := by
  have calm : Calm (fun row => row) s (s.setLock cache key lock) := .of_same rfl rfl rfl rfl
  refine ⟨inv.still calm rfl fun cache' key' i owner busy => ?_,fun other ne =>
    calm.keeps rfl rfl fun cache' key' => owner_setLock other (others other ne) cache' key'⟩
  by_cases mine : i = id
  · subst mine
    by_cases here : cache' = cache ∧ key' = key
    · obtain ⟨rfl,rfl⟩ := here
      simpa [State.setLock] using own busy owner
    · rw [setLock_other here]
      exact owner
  · exact (owner_setLock i (others i mine) cache' key').mpr owner

theorem lock_served {answer : Except Failure Unit}
    (served : State.serve useResourceDispatch requests id s (.lock cache key) env = some (t,answer)) :
    ∃ lock, (s.locks cache key).lock id = some lock ∧ t = s.setLock cache key lock ∧ answer = .ok () := by
  obtain ⟨lock,locked,is⟩ := Option.map_eq_some_iff.mp served
  cases is
  exact ⟨lock,locked,rfl,rfl⟩

theorem unlock_served {answer : Except Failure Unit}
    (served : State.serve useResourceDispatch requests id s (.unLock cache key) env = some (t,answer)) :
    (t = s ∧ (∃ e, answer = .error e) ∧ (s.locks cache key).unlock id = none) ∨
      ∃ lock, (s.locks cache key).unlock id = some lock ∧
        t = (s.note useResourceDispatch requests id (.unLock cache key)).setLock cache key lock ∧ answer = .ok () := by
  simp only [State.serve] at served
  cases unlocked : (s.locks cache key).unlock id with
  | none =>
    rw [unlocked] at served
    cases served
    exact .inl ⟨rfl,⟨_,rfl⟩,rfl⟩
  | some lock =>
    rw [unlocked] at served
    cases served
    exact .inr ⟨lock,rfl,rfl,rfl⟩

theorem lock_step (inv : Inv useResourceDispatch s) (locked : (s.locks cache key).lock id = some lock) :
    Inv useResourceDispatch (s.setLock cache key lock) ∧ ∀ other ≠ id, Keeps other s (s.setLock cache key lock) :=
  setLock_step id inv (fun _ other => ReentrantLock.lock_others other locked) fun _ _ => (ReentrantLock.lock_owner locked).2

private theorem note_unlock (still : s.moving id = none) (cache : LockCache) (key : String) :
    s.note useResourceDispatch requests id (.unLock cache key) = s := by
  cases cache with
  | nodeResource =>
    simp only [State.note]
    rw [still]
  | _ => rfl

def State.look (s : State) (id : ℕ) (processorId : Int) : State :=
  { s with looked := Function.update s.looked id ((s.looked id).or (some (s.tables.processor processorId))) }

theorem look_served {processorId : Int} {answer : Except Failure (Option SessionProcessor)}
    (served : State.serve useResourceDispatch requests id s (.getProcessor processorId) env = some (t,answer)) :
    (t = s ∧ (∃ e, answer = .error e) ∧ env.fails = true) ∨
      (answer = .ok (s.tables.processor processorId) ∧ t = s.look id processorId) := by
  rcases serve_cases rfl served with ⟨rfl,failed,fails⟩ | ⟨answered,rfl⟩
  · exact .inl ⟨rfl,failed,fails.resolve_right (by simp [Tables.refuses])⟩
  · exact .inr ⟨answered,rfl⟩

theorem look_step (id : ℕ) (inv : Inv useResourceDispatch s) (processorId : Int) :
    Inv useResourceDispatch (s.look id processorId) ∧ ∀ other ≠ id, Keeps other s (s.look id processorId) := by
  have calm : Calm (fun row => row) s (s.look id processorId) := .of_same rfl rfl rfl rfl
  exact ⟨inv.still calm rfl fun _ _ _ owner _ => owner,fun other ne =>
    calm.keeps (Function.update_of_ne ne _ _) rfl fun _ _ => Iff.rfl⟩

def harmless : Op → Bool
  | .lock _ _ | .unLock _ _ | .getProcessor _ => true
  | op => idle op

theorem harmless_step (safe : harmless op = true) (inv : Inv useResourceDispatch s) (still : s.moving id = none)
    (served : State.serve useResourceDispatch requests id s op env = some (t,answer)) :
    Inv useResourceDispatch t ∧ (contract useResourceDispatch id).guarantee s t ∧ t.moving id = none := by
  by_cases reads : idle op = true
  · obtain ⟨rfl,-⟩ := idle_served reads served
    exact ⟨inv,fun other _ => .refl other t,still⟩
  cases op with
  | lock cache key =>
    obtain ⟨lock,locked,rfl,-⟩ := lock_served served
    obtain ⟨inv',keeps⟩ := lock_step inv locked
    exact ⟨inv',keeps,still⟩
  | unLock cache key =>
    rcases unlock_served served with ⟨rfl,-⟩ | ⟨lock,unlocked,rfl,-⟩
    · exact ⟨inv,fun other _ => .refl other t,still⟩
    · rw [note_unlock still]
      obtain ⟨inv',keeps⟩ := setLock_step id inv (fun _ other => ReentrantLock.unlock_others other unlocked)
        fun busy => absurd still busy
      exact ⟨inv',keeps,still⟩
  | getProcessor processorId =>
    rcases look_served served with ⟨rfl,-⟩ | ⟨-,rfl⟩
    · exact ⟨inv,fun other _ => .refl other t,still⟩
    · obtain ⟨inv',keeps⟩ := look_step id inv processorId
      exact ⟨inv',keeps,still⟩
  | _ => exact absurd safe reads

end

end Eggroll.Cluster.NodeAccounts
