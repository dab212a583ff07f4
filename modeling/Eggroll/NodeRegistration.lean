import Mathlib.Data.List.Nodup
import Eggroll.NodeResources

/-! What a node reports of its resources (`ClusterManagerService.registerResource`) against the
rows that are kept of it: types that it no longer reports go, new ones come, and of all others
the total and the used amount follow the report. -/
namespace Eggroll.NodeResources
open Cluster (NodeResource)

/-- `Meta.Resource`, as a heartbeat carries it. -/
structure Resource where
  type : String
  total : Int
  used : Int
  allocated : Int
deriving Repr, DecidableEq

/-- `ErResource.fromProto`. -/
def Resource.fromProto (resource : Resource) : ErResource :=
  { resourceType := resource.type, total := resource.total, used := resource.used, allocated := resource.allocated }

structure ErServerNode where
  id : Int
  resources : List ErResource
deriving Repr, DecidableEq

def ErResource.unset (erResource : ErResource) : ErResource := { erResource with allocated := -1 }

section
variable (existResources registedResources : List ErResource)

/-- The reported resources of existing types; they lose the amount that they report as allocated. -/
def updateResources : List ErResource :=
  existResources.flatMap fun e =>
    (registedResources.filter fun updatedResource => updatedResource.resourceType = e.resourceType).map .unset

def deleteResources : List ErResource :=
  existResources.filter fun e =>
    !registedResources.any fun updatedResource => updatedResource.resourceType = e.resourceType

/-- The list that is looked through for new resources has the same objects, as they are by then. -/
def insertResources : List ErResource :=
  (registedResources.map fun r =>
    if existResources.any fun e => r.resourceType = e.resourceType then r.unset else r).filter
      (· ∉ updateResources existResources registedResources)

end

def registerResource (column : Column) (data : ErServerNode) (rows : List NodeResource) : Except Failure (List NodeResource) :=
  let existResources := (rows.filter fun row => row.serverNodeId = data.id).map toErResource
  applyAll column data.id (insertResources existResources data.resources) (updateResources existResources data.resources)
    (deleteResources existResources data.resources) rows

/-- The rows of a node. -/
def rowsOf (serverNodeId : Int) (rows : List NodeResource) : List NodeResource :=
  rows.filter fun row => row.serverNodeId = serverNodeId

structure Reconciled (serverNodeId : Int) (reported : List Resource) (before after : List NodeResource) : Prop where
  types : ((rowsOf serverNodeId after).map NodeResource.resourceType).Perm (reported.map Resource.type)
  kept : ∀ row ∈ before, row.serverNodeId = serverNodeId → ∀ r ∈ reported, r.type = row.resourceType →
    { row with total := r.total, used := r.used } ∈ after
  added : ∀ r ∈ reported, (∀ row ∈ before, row.serverNodeId = serverNodeId → row.resourceType ≠ r.type) →
    ⟨serverNodeId,r.type,r.total,r.used,0,0,none⟩ ∈ after
  others : (after.filter fun row => row.serverNodeId ≠ serverNodeId) =
    before.filter fun row => row.serverNodeId ≠ serverNodeId

def types (serverNodeId : Int) (reported : List Resource) (rows : List NodeResource) : List String :=
  (rowsOf serverNodeId rows).map NodeResource.resourceType ++ reported.map Resource.type

/-- The new types fit into the column, and no type comes in two spellings. -/
structure Storable (column : Column) (serverNodeId : Int) (reported : List Resource) (rows : List NodeResource) : Prop where
  holds : ∀ r ∈ reported, (∀ row ∈ rowsOf serverNodeId rows, row.resourceType ≠ r.type) → column.holds r.type = true
  spelled : ∀ a ∈ types serverNodeId reported rows, ∀ b ∈ types serverNodeId reported rows,
    column.weight a = column.weight b → a = b

section
variable {existResources registedResources : List ErResource}

private theorem mem_updateResources {u : ErResource} :
    u ∈ updateResources existResources registedResources ↔
      ∃ r ∈ registedResources, (∃ e ∈ existResources, e.resourceType = r.resourceType) ∧ u = r.unset := by
  simp only [updateResources,List.mem_flatMap,List.mem_map,List.mem_filter,decide_eq_true_eq]
  constructor
  · rintro ⟨e,exists_,r,⟨member,same⟩,rfl⟩
    exact ⟨r,member,⟨e,exists_,same.symm⟩,rfl⟩
  · rintro ⟨r,member,⟨e,exists_,same⟩,rfl⟩
    exact ⟨e,exists_,r,⟨member,same.symm⟩,rfl⟩

private theorem insertResources_eq : insertResources existResources registedResources =
    registedResources.filter fun r => !existResources.any fun e => r.resourceType = e.resourceType := by
  have each (r : ErResource) (member : r ∈ registedResources) :
      ((if existResources.any fun e => r.resourceType = e.resourceType then r.unset else r) ∉
        updateResources existResources registedResources) ↔
          (existResources.any fun e => r.resourceType = e.resourceType) = false := by
    rw [mem_updateResources]
    cases known : existResources.any fun e => r.resourceType = e.resourceType with
    | true =>
      obtain ⟨e,exists_,same⟩ := List.any_eq_true.mp known
      simp only [if_true,Bool.true_eq_false,iff_false,not_not]
      exact ⟨r,member,⟨e,exists_,(of_decide_eq_true same).symm⟩,rfl⟩
    | false =>
      simp only [Bool.false_eq_true,if_false,iff_true]
      rintro ⟨other,_,⟨e,exists_,same⟩,rfl⟩
      have absent := List.any_eq_false.mp known e exists_
      exact absent (decide_eq_true (show other.resourceType = e.resourceType from same.symm))
  unfold insertResources
  rw [List.filter_map]
  have kept : (registedResources.filter ((fun r => decide (r ∉ updateResources existResources registedResources)) ∘
      fun r => if existResources.any fun e => r.resourceType = e.resourceType then r.unset else r)) =
        registedResources.filter fun r => !existResources.any fun e => r.resourceType = e.resourceType := by
    refine List.filter_congr fun r member => Bool.eq_iff_iff.mpr ?_
    rw [Function.comp_apply,decide_eq_true_iff,Bool.not_eq_true']
    exact each r member
  rw [kept]
  refine (List.map_congr_left fun r member => ?_).trans (List.map_id _)
  obtain ⟨-,absent⟩ := List.mem_filter.mp member
  rw [Bool.not_eq_true'] at absent
  simp [absent]

end

section
variable {column : Column} {serverNodeId : Int} {rows : List NodeResource}

private theorem save_ok_iff {row : NodeResource} {after : List NodeResource} : save column row rows = .ok after ↔
    column.holds row.resourceType = true ∧ (∀ other ∈ rows, key column other ≠ key column row) ∧ after = rows ++ [row] := by
  have free : (rows.any fun other => key column other = key column row) = false ↔
      ∀ other ∈ rows, key column other ≠ key column row := by
    simp only [List.any_eq_false,decide_eq_true_eq]
  rw [save,← free]
  cases column.holds row.resourceType <;>
    cases rows.any fun other => key column other = key column row <;> simp [eq_comm]

private theorem doInsert_ok_iff {resources : List ErResource} {after : List NodeResource} :
    doInsertNodeResource column serverNodeId resources rows = .ok after ↔
      (∀ r ∈ resources, column.holds r.resourceType = true) ∧
        (resources.map fun r => column.weight r.resourceType).Nodup ∧
        (∀ r ∈ resources, ∀ row ∈ rows, row.serverNodeId = serverNodeId →
          column.weight row.resourceType ≠ column.weight r.resourceType) ∧
        after = rows ++ resources.map (newRow serverNodeId) := by
  induction resources generalizing rows with
  | nil =>
    rw [doInsertNodeResource,Except.ok.injEq,eq_comm]
    simp
  | cons r rest ih =>
    have same (row : NodeResource) : key column row = key column (newRow serverNodeId r) ↔
        row.serverNodeId = serverNodeId ∧ column.weight row.resourceType = column.weight r.resourceType := Prod.ext_iff
    have first : doInsertNodeResource column serverNodeId (r :: rest) rows = .ok after ↔
        ∃ between, save column (newRow serverNodeId r) rows = .ok between ∧
          doInsertNodeResource column serverNodeId rest between = .ok after := by
      rw [doInsertNodeResource]
      cases save column (newRow serverNodeId r) rows with
      | error failure =>
        constructor
        · rintro ⟨⟩
        · rintro ⟨_,⟨⟩,_⟩
      | ok between =>
        constructor
        · exact fun done => ⟨between,rfl,done⟩
        · rintro ⟨_,⟨⟩,done⟩
          exact done
    rw [first]
    simp only [save_ok_iff,List.map_cons,List.nodup_cons,List.forall_mem_cons]
    constructor
    · rintro ⟨_,⟨held,free,rfl⟩,later⟩
      obtain ⟨holds,distinct,new,rfl⟩ := ih.mp later
      refine ⟨⟨held,holds⟩,⟨?_,distinct⟩,⟨?_,?_⟩,by rw [List.append_assoc,List.singleton_append]⟩
      · rintro twice
        obtain ⟨other,inside,weighs⟩ := List.mem_map.mp twice
        exact new other inside _ (List.mem_append_right _ (List.mem_singleton_self _)) rfl weighs.symm
      · exact fun row there here weighs => free row there ((same row).mpr ⟨here,weighs⟩)
      · exact fun other inside row there => new other inside row (List.mem_append_left _ there)
    · rintro ⟨⟨held,holds⟩,⟨once,distinct⟩,⟨free,new⟩,rfl⟩
      refine ⟨_,⟨held,fun row there both => ?_,rfl⟩,ih.mpr ⟨holds,distinct,?_,?_⟩⟩
      · obtain ⟨here,weighs⟩ := (same row).mp both
        exact free row there here weighs
      · intro other inside row there here
        rcases List.mem_append.mp there with old | last
        · exact new other inside row old here
        · rw [List.mem_singleton.mp last]
          exact fun weighs => once (List.mem_map.mpr ⟨other,inside,weighs.symm⟩)
      · rw [List.append_assoc,List.singleton_append]

private theorem doDelete_eq (resources : List ErResource) : doDeleteNodeResource column serverNodeId resources rows =
    rows.filter fun row => ∀ r ∈ resources,
      ¬ (row.serverNodeId = serverNodeId ∧ column.weight row.resourceType = column.weight r.resourceType) := by
  induction resources generalizing rows with
  | nil => simp [doDeleteNodeResource]
  | cons r rest ih =>
    rw [doDeleteNodeResource,ih,List.filter_filter]
    refine List.filter_congr fun row _ => ?_
    simp only [List.forall_mem_cons,Bool.decide_and,Bool.and_comm]

private theorem meets_iff {r : ErResource} {row : NodeResource} (node : 0 ≤ serverNodeId)
    (named : isNotBlank r.resourceType = true) : r.meets column serverNodeId row = true ↔
      column.weight row.resourceType = column.weight r.resourceType ∧ row.serverNodeId = serverNodeId := by
  simp [ErResource.meets,node,named]

private theorem updated_one {resources : List ErResource} {row : NodeResource} {r : ErResource} (node : 0 ≤ serverNodeId)
    (named : ∀ r ∈ resources, isNotBlank r.resourceType = true)
    (distinct : (resources.map fun r => column.weight r.resourceType).Nodup) (member : r ∈ resources)
    (here : row.serverNodeId = serverNodeId) (same : column.weight row.resourceType = column.weight r.resourceType) :
    updated column serverNodeId resources row = r.set row := by
  induction resources generalizing row with
  | nil => cases member
  | cons first rest ih =>
    rw [List.map_cons,List.nodup_cons] at distinct
    obtain ⟨named_first,named_rest⟩ := List.forall_mem_cons.mp named
    rw [updated,List.foldl_cons,← updated]
    rcases List.mem_cons.mp member with rfl | later
    · rw [if_pos ((meets_iff node named_first).mpr ⟨same,here⟩)]
      refine updated_none fun other inside => ?_
      rw [← Bool.not_eq_true,meets_iff node (named_rest other inside)]
      rintro ⟨type,-⟩
      exact distinct.1 (List.mem_map.mpr ⟨other,inside,(same.symm.trans type).symm⟩)
    · have other : first.meets column serverNodeId row = false := by
        rw [← Bool.not_eq_true,meets_iff node named_first]
        rintro ⟨type,-⟩
        exact distinct.1 (List.mem_map.mpr ⟨r,later,same.symm.trans type⟩)
      rw [other,if_neg Bool.false_ne_true]
      exact ih named_rest distinct.2 later here same

private theorem applyAll_eq (insertData updateData deleteData : List ErResource) :
    applyAll column serverNodeId insertData updateData deleteData rows = (do
      let rows ← doInsertNodeResource column serverNodeId insertData rows
      let rows ← doUpdateNodeResource column serverNodeId updateData rows
      pure (doDeleteNodeResource column serverNodeId deleteData rows)) := by
  unfold applyAll
  cases insertData <;> cases updateData <;> cases deleteData <;> rfl

end

section
variable {serverNodeId : ℕ} {reported : List Resource} {rows : List NodeResource}

private theorem set_report {r : Resource} (total : 0 ≤ r.total) (used : 0 ≤ r.used) (row : NodeResource) :
    r.fromProto.unset.set row = { row with total := r.total, used := r.used } := by
  simp [ErResource.set,ErResource.unset,Resource.fromProto,given,total,used]

abbrev existing (serverNodeId : ℕ) (rows : List NodeResource) : List ErResource :=
  (rowsOf serverNodeId rows).map toErResource

abbrev changes (serverNodeId : ℕ) (reported : List Resource) (rows : List NodeResource) : List ErResource :=
  updateResources (existing serverNodeId rows) (reported.map Resource.fromProto)

private theorem changes_types (distinct : (reported.map Resource.type).Nodup)
    (index : ((rowsOf serverNodeId rows).map NodeResource.resourceType).Nodup) :
    ((changes serverNodeId reported rows).map ErResource.resourceType).Nodup := by
  have types : (changes serverNodeId reported rows).map ErResource.resourceType =
      ((rowsOf serverNodeId rows).map NodeResource.resourceType).flatMap fun type =>
        (reported.map Resource.type).filter (· = type) := by
    simp only [changes,updateResources,existing,List.map_flatMap,List.flatMap_map,List.filter_map,List.map_map]
    rfl
  rw [types,List.nodup_flatMap]
  refine ⟨fun _ _ => distinct.filter _,index.imp fun {a b} different type inside inside' => different ?_⟩
  exact (of_decide_eq_true (List.mem_filter.mp inside).2).symm.trans (of_decide_eq_true (List.mem_filter.mp inside').2)

private theorem mem_changes {u : ErResource} : u ∈ changes serverNodeId reported rows ↔
    ∃ r ∈ reported, (∃ row ∈ rowsOf serverNodeId rows, row.resourceType = r.type) ∧ u = r.fromProto.unset := by
  simp only [changes,mem_updateResources,List.mem_map]
  constructor
  · rintro ⟨_,⟨r,member,rfl⟩,⟨_,⟨row,there,rfl⟩,same⟩,rfl⟩
    exact ⟨r,member,⟨row,there,same⟩,rfl⟩
  · rintro ⟨r,member,⟨row,there,same⟩,rfl⟩
    exact ⟨_,⟨r,member,rfl⟩,⟨_,⟨row,there,rfl⟩,same⟩,rfl⟩

/-- The reported resources of types that are not kept. -/
def additions (serverNodeId : ℕ) (reported : List Resource) (rows : List NodeResource) : List Resource :=
  reported.filter fun r => !(rowsOf serverNodeId rows).any fun row => r.type = row.resourceType

private theorem insertions_eq : insertResources (existing serverNodeId rows) (reported.map Resource.fromProto) =
    (additions serverNodeId reported rows).map Resource.fromProto := by
  rw [insertResources_eq,List.filter_map,additions]
  simp only [existing,List.any_map]
  rfl

private theorem mem_additions {r : Resource} : r ∈ additions serverNodeId reported rows ↔
    r ∈ reported ∧ ∀ row ∈ rowsOf serverNodeId rows, row.resourceType ≠ r.type := by
  simp only [additions,List.mem_filter,Bool.not_eq_true',List.any_eq_false,decide_eq_true_eq]
  exact and_congr_right fun _ => forall₂_congr fun row _ => not_congr eq_comm

private theorem mem_types {type : String} : type ∈ types serverNodeId reported rows ↔
    type ∈ (rowsOf serverNodeId rows).map NodeResource.resourceType ++ (additions serverNodeId reported rows).map Resource.type := by
  rw [types,List.mem_append,List.mem_append]
  constructor
  · rintro (kept | reports)
    · exact .inl kept
    · obtain ⟨r,member,rfl⟩ := List.mem_map.mp reports
      by_cases known : ∃ row ∈ rowsOf serverNodeId rows, row.resourceType = r.type
      · obtain ⟨row,there,same⟩ := known
        exact .inl (List.mem_map.mpr ⟨row,there,same⟩)
      · refine .inr (List.mem_map_of_mem (mem_additions.mpr ⟨member,fun row there same => ?_⟩))
        exact known ⟨row,there,same⟩
  · rintro (kept | new)
    · exact .inl kept
    · obtain ⟨r,member,rfl⟩ := List.mem_map.mp new
      exact .inr (List.mem_map_of_mem (mem_additions.mp member).1)

private theorem types_distinct (distinct : (reported.map Resource.type).Nodup)
    (index : ((rowsOf serverNodeId rows).map NodeResource.resourceType).Nodup) :
    ((rowsOf serverNodeId rows).map NodeResource.resourceType ++ (additions serverNodeId reported rows).map Resource.type).Nodup := by
  refine List.nodup_append.mpr ⟨index,(List.filter_sublist.map Resource.type).nodup distinct,?_⟩
  rintro _ old _ new rfl
  obtain ⟨row,there,same⟩ := List.mem_map.mp old
  obtain ⟨r,added,type⟩ := List.mem_map.mp new
  exact (mem_additions.mp added).2 row there (same.trans type.symm)

def stays (serverNodeId : ℕ) (reported : List Resource) (row : NodeResource) : Bool :=
  row.serverNodeId ≠ serverNodeId ∨ row.resourceType ∈ reported.map Resource.type

end

section
variable {column : Column} {serverNodeId : ℕ} {reported : List Resource} {rows : List NodeResource}

private theorem insert_iff (distinct : (reported.map Resource.type).Nodup)
    (index : ((rowsOf serverNodeId rows).map fun row => column.weight row.resourceType).Nodup)
    {after : List NodeResource} :
    doInsertNodeResource column serverNodeId ((additions serverNodeId reported rows).map Resource.fromProto) rows = .ok after ↔
      Storable column serverNodeId reported rows ∧
        after = rows ++ (additions serverNodeId reported rows).map fun r => newRow serverNodeId r.fromProto := by
  have kept : ((rowsOf serverNodeId rows).map NodeResource.resourceType).Nodup := by
    refine List.Nodup.of_map column.weight ?_
    rw [List.map_map]
    exact index
  have spelled : (∀ a ∈ types serverNodeId reported rows, ∀ b ∈ types serverNodeId reported rows,
      column.weight a = column.weight b → a = b) ↔
        ((additions serverNodeId reported rows).map fun r => column.weight r.type).Nodup ∧
        ∀ r ∈ additions serverNodeId reported rows, ∀ row ∈ rowsOf serverNodeId rows,
          column.weight row.resourceType ≠ column.weight r.type := by
    simp only [mem_types]
    rw [← List.nodup_map_iff_inj_on (types_distinct distinct kept),List.map_append,List.map_map,List.map_map,
      List.nodup_append]
    simp only [List.mem_map,Function.comp_def]
    constructor
    · rintro ⟨-,new,apart⟩
      exact ⟨new,fun r added row there => apart _ ⟨row,there,rfl⟩ _ ⟨r,added,rfl⟩⟩
    · rintro ⟨new,apart⟩
      refine ⟨index,new,?_⟩
      rintro _ ⟨row,there,rfl⟩ _ ⟨r,added,rfl⟩
      exact apart r added row there
  rw [doInsert_ok_iff,List.map_map,List.map_map]
  simp only [List.forall_mem_map,rowsOf,List.mem_filter,decide_eq_true_eq,and_imp] at spelled ⊢
  constructor
  · rintro ⟨held,weights,apart,rfl⟩
    exact ⟨⟨fun r reports new => held r (mem_additions.mpr ⟨reports,new⟩),spelled.mpr ⟨weights,apart⟩⟩,rfl⟩
  · rintro ⟨storable,rfl⟩
    obtain ⟨weights,apart⟩ := spelled.mp storable.spelled
    exact ⟨fun r added => storable.holds r (mem_additions.mp added).1 (mem_additions.mp added).2,weights,apart,rfl⟩

private theorem deletions_stay {row : NodeResource}
    (spelled : ∀ a ∈ types serverNodeId reported rows, ∀ b ∈ types serverNodeId reported rows,
      column.weight a = column.weight b → a = b)
    (there : row.serverNodeId = serverNodeId → row.resourceType ∈ types serverNodeId reported rows) :
    (∀ r ∈ deleteResources (existing serverNodeId rows) (reported.map Resource.fromProto),
      ¬ (row.serverNodeId = serverNodeId ∧ column.weight row.resourceType = column.weight r.resourceType)) ↔
        stays serverNodeId reported row = true := by
  simp only [stays,decide_eq_true_eq]
  constructor
  · intro spared
    by_contra gone
    obtain ⟨here,absent⟩ := not_or.mp gone
    rw [not_not] at here
    obtain ⟨old,member,same⟩ := List.mem_map.mp ((List.mem_append.mp (there here)).resolve_right absent)
    refine spared (toErResource old) (List.mem_filter.mpr ⟨List.mem_map_of_mem member,?_⟩)
      ⟨here,(congrArg column.weight same).symm⟩
    rw [Bool.not_eq_true',List.any_eq_false]
    rintro _ inside type
    obtain ⟨r,reports,rfl⟩ := List.mem_map.mp inside
    exact absent (List.mem_map.mpr ⟨r,reports,(of_decide_eq_true type).trans same⟩)
  · rintro stay r deleted ⟨here,weighs⟩
    obtain ⟨kept,unreported⟩ := List.mem_filter.mp deleted
    obtain ⟨old,member,rfl⟩ := List.mem_map.mp kept
    have same : row.resourceType = old.resourceType :=
      spelled _ (there here) _ (List.mem_append_left _ (List.mem_map_of_mem member)) weighs
    obtain ⟨r',reports,type⟩ := List.mem_map.mp (stay.resolve_left (fun elsewhere => elsewhere here))
    rw [Bool.not_eq_true',List.any_eq_false] at unreported
    exact unreported r'.fromProto (List.mem_map_of_mem reports) (decide_eq_true (type.trans same))

def reconciled (column : Column) (serverNodeId : ℕ) (reported : List Resource) (rows : List NodeResource) :
    List NodeResource :=
  ((rows ++ (additions serverNodeId reported rows).map fun r => newRow serverNodeId r.fromProto).map
    (updated column serverNodeId (changes serverNodeId reported rows))).filter (stays serverNodeId reported)

private theorem registerResource_ok_iff (distinct : (reported.map Resource.type).Nodup)
    (amounts : ∀ r ∈ reported, 0 ≤ r.total ∧ 0 ≤ r.used)
    (index : ((rowsOf serverNodeId rows).map fun row => column.weight row.resourceType).Nodup)
    {after : List NodeResource} :
    registerResource column ⟨serverNodeId,reported.map Resource.fromProto⟩ rows = .ok after ↔
      Storable column serverNodeId reported rows ∧ after = reconciled column serverNodeId reported rows := by
  have sets : ∀ r ∈ changes serverNodeId reported rows, r.setsNothing = false := by
    intro u member
    obtain ⟨r,reports,-,rfl⟩ := mem_changes.mp member
    refine decide_eq_false fun nothing => ?_
    exact absurd nothing.1 (Int.not_lt.mpr (amounts r reports).1)
  have stored (storable : Storable column serverNodeId reported rows) :
      doDeleteNodeResource column serverNodeId (deleteResources (existing serverNodeId rows) (reported.map Resource.fromProto))
        ((rows ++ (additions serverNodeId reported rows).map fun r => newRow serverNodeId r.fromProto).map
          (updated column serverNodeId (changes serverNodeId reported rows))) = reconciled column serverNodeId reported rows := by
    rw [doDelete_eq]
    refine List.filter_congr fun row member => ?_
    rw [Bool.eq_iff_iff,decide_eq_true_iff]
    refine deletions_stay storable.spelled fun here => ?_
    obtain ⟨before,there,rfl⟩ := List.mem_map.mp member
    rw [updated_serverNodeId] at here
    rw [updated_resourceType,types,List.mem_append]
    rcases List.mem_append.mp there with old | new
    · exact .inl (List.mem_map_of_mem (List.mem_filter.mpr ⟨old,decide_eq_true here⟩))
    · obtain ⟨r,added,rfl⟩ := List.mem_map.mp new
      exact .inr (List.mem_map_of_mem (mem_additions.mp added).1)
  rw [registerResource]
  change applyAll column serverNodeId (insertResources (existing serverNodeId rows) (reported.map Resource.fromProto))
    (changes serverNodeId reported rows)
    (deleteResources (existing serverNodeId rows) (reported.map Resource.fromProto)) rows = _ ↔ _
  rw [applyAll_eq,insertions_eq]
  cases inserted : doInsertNodeResource column serverNodeId
      ((additions serverNodeId reported rows).map Resource.fromProto) rows with
  | error failure =>
    refine ⟨fun done => (by cases done),fun both => ?_⟩
    rw [(insert_iff distinct index).mpr ⟨both.1,rfl⟩] at inserted
    cases inserted
  | ok between =>
    obtain ⟨storable,rfl⟩ := (insert_iff distinct index).mp inserted
    change (doUpdateNodeResource column serverNodeId (changes serverNodeId reported rows) _ >>= _) = _ ↔ _
    rw [doUpdate_ok sets]
    change Except.ok (doDeleteNodeResource column serverNodeId _ _) = _ ↔ _
    rw [stored storable,Except.ok.injEq,eq_comm]
    exact ⟨fun same => ⟨storable,same⟩,And.right⟩

private theorem changes_named (named : ∀ r ∈ reported, isNotBlank r.type = true) :
    ∀ u ∈ changes serverNodeId reported rows, isNotBlank u.resourceType = true := by
  intro u member
  obtain ⟨r,reports,-,rfl⟩ := mem_changes.mp member
  exact named r reports

private theorem changes_distinct (distinct : (reported.map Resource.type).Nodup)
    (index : ((rowsOf serverNodeId rows).map NodeResource.resourceType).Nodup)
    (spelled : ∀ a ∈ types serverNodeId reported rows, ∀ b ∈ types serverNodeId reported rows,
      column.weight a = column.weight b → a = b) :
    ((changes serverNodeId reported rows).map fun r => column.weight r.resourceType).Nodup := by
  have inside : ∀ type ∈ (changes serverNodeId reported rows).map ErResource.resourceType,
      type ∈ types serverNodeId reported rows := by
    intro type member
    obtain ⟨u,change,rfl⟩ := List.mem_map.mp member
    obtain ⟨r,reports,-,rfl⟩ := mem_changes.mp change
    exact List.mem_append_right _ (List.mem_map_of_mem reports)
  have weights := (changes_types distinct index).map_on fun a ha b hb => spelled a (inside a ha) b (inside b hb)
  rw [List.map_map] at weights
  exact weights

private theorem updated_elsewhere (named : ∀ r ∈ reported, isNotBlank r.type = true) {row : NodeResource}
    (elsewhere : row.serverNodeId ≠ serverNodeId) :
    updated column serverNodeId (changes serverNodeId reported rows) row = row := by
  refine updated_none fun u member => ?_
  rw [← Bool.not_eq_true,meets_iff (Int.natCast_nonneg _) (changes_named named u member)]
  exact fun meets => elsewhere meets.2

private theorem updated_new (named : ∀ r ∈ reported, isNotBlank r.type = true)
    (spelled : ∀ a ∈ types serverNodeId reported rows, ∀ b ∈ types serverNodeId reported rows,
      column.weight a = column.weight b → a = b) {r : Resource} (new : r ∈ additions serverNodeId reported rows) :
    updated column serverNodeId (changes serverNodeId reported rows) (newRow serverNodeId r.fromProto) =
      newRow serverNodeId r.fromProto := by
  obtain ⟨reports,absent⟩ := mem_additions.mp new
  refine updated_none fun u member => ?_
  rw [← Bool.not_eq_true,meets_iff (Int.natCast_nonneg _) (changes_named named u member)]
  rintro ⟨weighs,-⟩
  obtain ⟨r',reports',⟨row,there,same⟩,rfl⟩ := mem_changes.mp member
  have type : r.type = r'.type := spelled _ (List.mem_append_right _ (List.mem_map_of_mem reports)) _
    (List.mem_append_right _ (List.mem_map_of_mem reports')) weighs
  exact absent row there (same.trans type.symm)

end

section
variable {column : Column} {serverNodeId : ℕ} {reported : List Resource} {rows : List NodeResource}

private theorem reconciled_others (named : ∀ r ∈ reported, isNotBlank r.type = true) :
    ((reconciled column serverNodeId reported rows).filter fun row => row.serverNodeId ≠ (serverNodeId : Int)) =
      rows.filter fun row => row.serverNodeId ≠ (serverNodeId : Int) := by
  have keeps : ∀ row : NodeResource, (decide (row.serverNodeId ≠ serverNodeId) && stays serverNodeId reported row) =
      decide (row.serverNodeId ≠ serverNodeId) := by
    intro row
    by_cases here : row.serverNodeId = serverNodeId <;> simp [stays,here]
  rw [reconciled,List.filter_filter,List.filter_congr fun row _ => keeps row,List.filter_map]
  simp only [Function.comp_def,updated_serverNodeId]
  have none_new : (((additions serverNodeId reported rows).map fun r => newRow serverNodeId r.fromProto).filter
      fun row => row.serverNodeId ≠ (serverNodeId : Int)) = [] := by
    refine List.filter_eq_nil_iff.mpr fun row member => ?_
    obtain ⟨r,-,rfl⟩ := List.mem_map.mp member
    simp [newRow]
  rw [List.filter_append,none_new,List.append_nil]
  refine (List.map_congr_left fun row member => ?_).trans (List.map_id _)
  exact updated_elsewhere named (of_decide_eq_true (List.mem_filter.mp member).2)

private theorem reconciled_types (distinct : (reported.map Resource.type).Nodup)
    (index : ((rowsOf serverNodeId rows).map NodeResource.resourceType).Nodup) :
    ((rowsOf serverNodeId (reconciled column serverNodeId reported rows)).map NodeResource.resourceType).Perm
      (reported.map Resource.type) := by
  let all := rowsOf serverNodeId rows ++ (additions serverNodeId reported rows).map fun r => newRow serverNodeId r.fromProto
  have listed : (rowsOf serverNodeId (reconciled column serverNodeId reported rows)).map NodeResource.resourceType =
      (all.map NodeResource.resourceType).filter (· ∈ reported.map Resource.type) := by
    have here : ∀ row : NodeResource, (decide (row.serverNodeId = serverNodeId) && stays serverNodeId reported row) =
        (decide (row.resourceType ∈ reported.map Resource.type) && decide (row.serverNodeId = serverNodeId)) := by
      intro row
      by_cases this : row.serverNodeId = serverNodeId <;> simp [stays,this]
    have all_new : (((additions serverNodeId reported rows).map fun r => newRow serverNodeId r.fromProto).filter
        fun row => row.serverNodeId = (serverNodeId : Int)) = (additions serverNodeId reported rows).map
          fun r => newRow serverNodeId r.fromProto := by
      refine List.filter_eq_self.mpr fun row member => ?_
      obtain ⟨r,-,rfl⟩ := List.mem_map.mp member
      simp [newRow]
    rw [rowsOf,reconciled,List.filter_filter,List.filter_congr fun row _ => here row,List.filter_map,List.map_map,
      List.filter_map]
    simp only [Function.comp_def,updated_serverNodeId,updated_resourceType]
    rw [← List.filter_filter,List.filter_append,all_new]
    rfl
  have distinct_all : (all.map NodeResource.resourceType).Nodup := by
    rw [List.map_append,List.map_map]
    exact types_distinct distinct index
  rw [listed]
  refine (List.perm_ext_iff_of_nodup (distinct_all.filter _) distinct).mpr fun type => ?_
  rw [List.mem_filter,decide_eq_true_iff]
  refine ⟨And.right,fun reports => ⟨?_,reports⟩⟩
  rw [List.map_append,List.map_map]
  exact mem_types.mp (List.mem_append_right _ reports)

/-- A report reconciles the rows of its node exactly when it can be stored: the types are the
reported ones, what is in use of a type that stays is kept, and no other node is touched. A type in
another spelling is inserted before the old one goes, and the index refuses it. -/
theorem register_reconciles (column : Column) (serverNodeId : ℕ) (reported : List Resource) (rows : List NodeResource)
    (distinct : (reported.map Resource.type).Nodup) (named : ∀ r ∈ reported, isNotBlank r.type = true)
    (amounts : ∀ r ∈ reported, 0 ≤ r.total ∧ 0 ≤ r.used)
    (index : ((rowsOf serverNodeId rows).map fun row => column.weight row.resourceType).Nodup) :
    (Storable column serverNodeId reported rows → ∃ after,
      registerResource column ⟨serverNodeId,reported.map Resource.fromProto⟩ rows = .ok after ∧
        Reconciled serverNodeId reported rows after) ∧
      (¬ Storable column serverNodeId reported rows → ∃ failure,
        registerResource column ⟨serverNodeId,reported.map Resource.fromProto⟩ rows = .error failure) := by
  have kept : ((rowsOf serverNodeId rows).map NodeResource.resourceType).Nodup := by
    refine List.Nodup.of_map column.weight ?_
    rw [List.map_map]
    exact index
  constructor
  · intro storable
    refine ⟨_,(registerResource_ok_iff distinct amounts index).mpr ⟨storable,rfl⟩,reconciled_types distinct kept,?_,?_,
      reconciled_others named⟩
    · intro row there here r reports same
      have known : row ∈ rowsOf serverNodeId rows := List.mem_filter.mpr ⟨there,decide_eq_true here⟩
      have change : r.fromProto.unset ∈ changes serverNodeId reported rows :=
        mem_changes.mpr ⟨r,reports,⟨row,known,same.symm⟩,rfl⟩
      have becomes : updated column serverNodeId (changes serverNodeId reported rows) row =
          { row with total := r.total, used := r.used } := by
        rw [updated_one (Int.natCast_nonneg _) (changes_named named) (changes_distinct distinct kept storable.spelled)
          change here (congrArg column.weight same.symm)]
        exact set_report (amounts r reports).1 (amounts r reports).2 row
      refine List.mem_filter.mpr ⟨List.mem_map.mpr ⟨row,List.mem_append_left _ there,becomes⟩,?_⟩
      exact decide_eq_true (.inr (List.mem_map.mpr ⟨r,reports,same⟩))
    · intro r reports absent
      have new : r ∈ additions serverNodeId reported rows := by
        refine mem_additions.mpr ⟨reports,fun row there => ?_⟩
        obtain ⟨member,here⟩ := List.mem_filter.mp there
        exact absent row member (of_decide_eq_true here)
      have row : newRow serverNodeId r.fromProto = ⟨serverNodeId,r.type,r.total,r.used,0,0,none⟩ := by
        simp only [newRow,Resource.fromProto,Int.max_eq_left (amounts r reports).2]
      rw [← row]
      refine List.mem_filter.mpr
        ⟨List.mem_map.mpr ⟨_,List.mem_append_right _ (List.mem_map_of_mem new),updated_new named storable.spelled new⟩,?_⟩
      exact decide_eq_true (.inr (List.mem_map_of_mem reports))
  · intro refused
    cases done : registerResource column ⟨serverNodeId,reported.map Resource.fromProto⟩ rows with
    | error failure => exact ⟨failure,rfl⟩
    | ok after => exact absurd ((registerResource_ok_iff distinct amounts index).mp done).1 refused

end

/-- A node that had GPUs reports cores and memory. -/
theorem register_reconciles_two : ∃ after,
    registerResource latin1_swedish_ci
      ⟨(4 : ℕ),[Resource.fromProto ⟨"VCPU_CORE",16,2,0⟩,Resource.fromProto ⟨"HEAP_MEMORY",64,0,0⟩]⟩
      [⟨4,"VCPU_CORE",8,1,3,2,none⟩,⟨4,"VGPU_CORE",2,0,0,1,some "0"⟩,⟨5,"VCPU_CORE",8,0,0,0,none⟩] = .ok after ∧
    Reconciled 4 [⟨"VCPU_CORE",16,2,0⟩,⟨"HEAP_MEMORY",64,0,0⟩]
      [⟨4,"VCPU_CORE",8,1,3,2,none⟩,⟨4,"VGPU_CORE",2,0,0,1,some "0"⟩,⟨5,"VCPU_CORE",8,0,0,0,none⟩] after :=
  (register_reconciles latin1_swedish_ci 4 [⟨"VCPU_CORE",16,2,0⟩,⟨"HEAP_MEMORY",64,0,0⟩] _ (by decide) (by decide)
    (by decide) (by decide)).1 ⟨by decide,by decide⟩

/-- The node has `VGPU_CORE` and reports `vgpu_core`. -/
theorem register_spelling :
    ((rowsOf 4 [⟨4,"VGPU_CORE",2,0,0,1,some "0"⟩]).map fun row => latin1_swedish_ci.weight row.resourceType).Nodup ∧
      isNotBlank "vgpu_core" = true ∧
      registerResource latin1_swedish_ci ⟨(4 : ℕ),[Resource.fromProto ⟨"vgpu_core",2,0,0⟩]⟩
        [⟨4,"VGPU_CORE",2,0,0,1,some "0"⟩] = .error .duplicate := by
  decide

end Eggroll.NodeResources
