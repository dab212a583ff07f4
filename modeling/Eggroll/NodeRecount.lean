import Mathlib.Data.List.Dedup
import Eggroll.Library.Ledger
import Eggroll.NodeResources

/-! The recount of a node's resources (`countAndUpdateNodeResourceInner` of
`ClusterResourceManager.java`). It asks for rows whose resource type, and not whose status, is
`allocated` or `pre_allocated`, and it adds to counts that start at -1. -/
namespace Eggroll.NodeResources
open Cluster (NodeResource ProcessorResource Tables)
open Library

/-- The rows that the query gives. -/
def resourceList (serverNodeId : Int) (rows : List ProcessorResource) : List ProcessorResource :=
  rows.filter fun row => row.serverNodeId = serverNodeId ∧ row.resourceType ∈ ["allocated","pre_allocated"]

/-- What a row adds. No count is null: the fields of a new `ErResource` have defaults. -/
def counted (nodeResource : ErResource) (row : ProcessorResource) : ErResource :=
  if row.status = "allocated" then { nodeResource with allocated := long (nodeResource.allocated + row.allocated) }
  else { nodeResource with preAllocated := long (nodeResource.preAllocated + row.allocated) }

/-- The map of counts by resource type; a new entry does not get the type itself. An empty status
stands for the null one, on which the call of `equals` fails. -/
def count (resourceMap : String → Option ErResource) (row : ProcessorResource) :
    Except Failure (String → Option ErResource) :=
  if row.status = "" then .error .nullPointer
  else .ok (Function.update resourceMap row.resourceType
    (some (counted ((resourceMap row.resourceType).getD {}) row)))

/-- The keys of the map in the order in which its values are given. -/
structure Order (rows : List ProcessorResource) where
  keys : List String
  nodup : keys.Nodup
  mem : ∀ key, key ∈ keys ↔ key ∈ rows.map ProcessorResource.resourceType

/-- The list from the database is never null, so the branch for that is left out. -/
def countAndUpdateNodeResourceInner (column : Column) (serverNodeId : Int) (tables : Tables)
    (order : Order (resourceList serverNodeId tables.processorResources)) : Except Failure Tables := do
  let resourceMap ← (resourceList serverNodeId tables.processorResources).foldlM count fun _ => none
  let prepareUpdateResource := order.keys.filterMap resourceMap
  let nodeResources ← doUpdateNodeResource column serverNodeId prepareUpdateResource tables.nodeResources
  pure { tables with nodeResources := nodeResources }

def held (tables : Tables) (serverNodeId : Int) (resourceType status : String) : Int :=
  weigh (fun row => row.serverNodeId = serverNodeId ∧ row.resourceType = resourceType ∧ row.status = status)
    ProcessorResource.allocated tables.processorResources

def Agrees (tables : Tables) (serverNodeId : Int) : Prop :=
  ∀ row ∈ tables.nodeResources, row.serverNodeId = serverNodeId →
    row.allocated = held tables serverNodeId row.resourceType "allocated" ∧
      row.preAllocated = held tables serverNodeId row.resourceType "pre_allocated"

/-- The recount ends with counters that agree. -/
def RecountAgrees (column : Column) (serverNodeId : Int) (tables : Tables)
    (order : Order (resourceList serverNodeId tables.processorResources)) : Prop :=
  ∃ after, countAndUpdateNodeResourceInner column serverNodeId tables order = .ok after ∧ Agrees after serverNodeId

/-- What the rows of one of the two odd types come to, with the -1 that the count starts from. -/
def oddCount (rows : List ProcessorResource) (resourceType : String) (status : String → Bool) : Int :=
  long (weigh (fun row => row.resourceType = resourceType ∧ status row.status) ProcessorResource.allocated rows - 1)

def oddAllocated (rows : List ProcessorResource) (resourceType : String) : Int :=
  oddCount rows resourceType (· = "allocated")

def oddPreAllocated (rows : List ProcessorResource) (resourceType : String) : Int :=
  oddCount rows resourceType (· ≠ "allocated")

def lastGiven (counts : List Int) (column : Int) : Int := (counts.filter (0 ≤ ·)).getLast?.getD column

/-- Rows whose type is one of the two words are counted for every resource of the node; by
chance that can be right. -/
structure Coincides (serverNodeId : Int) (tables : Tables) (rows : List ProcessorResource) (keys : List String) :
    Prop where
  status : ∀ row ∈ rows, row.status ≠ ""
  counts : ∀ key ∈ keys, 0 ≤ oddAllocated rows key ∨ 0 ≤ oddPreAllocated rows key
  agree : ∀ row ∈ tables.nodeResources, row.serverNodeId = serverNodeId →
    lastGiven (keys.map (oddAllocated rows)) row.allocated = held tables serverNodeId row.resourceType "allocated" ∧
      lastGiven (keys.map (oddPreAllocated rows)) row.preAllocated =
        held tables serverNodeId row.resourceType "pre_allocated"

section
variable {rows : List ProcessorResource}

private theorem long_add (x y : Int) : long (long x + y) = long (x + y) := Int.bmod_add_bmod

private theorem counted_all (rows : List ProcessorResource) (x y : Int) :
    rows.foldl counted { allocated := long x, preAllocated := long y } =
      { allocated := long (x + weigh (fun row => row.status = "allocated") ProcessorResource.allocated rows)
        preAllocated := long (y + weigh (fun row => row.status ≠ "allocated") ProcessorResource.allocated rows) } := by
  induction rows generalizing x y with
  | nil => simp
  | cons row rest ih =>
    rw [List.foldl_cons,weigh_cons,weigh_cons]
    by_cases this : row.status = "allocated"
    · have first : counted { allocated := long x, preAllocated := long y } row =
          { allocated := long (x + row.allocated), preAllocated := long y } := by
        rw [counted,if_pos this,long_add]
      rw [first,ih]
      simp [this,Int.add_assoc]
    · have first : counted { allocated := long x, preAllocated := long y } row =
          { allocated := long x, preAllocated := long (y + row.allocated) } := by
        rw [counted,if_neg this,long_add]
      rw [first,ih]
      simp [this,Int.add_assoc]

def oddResource (rows : List ProcessorResource) (key : String) : ErResource :=
  { allocated := oddAllocated rows key, preAllocated := oddPreAllocated rows key }

private theorem counted_key (key : String) :
    (rows.filter fun row => row.resourceType = key).foldl counted {} = oddResource rows key := by
  have odd (status : String → Bool) : weigh (fun row => status row.status) ProcessorResource.allocated
      (rows.filter fun row => row.resourceType = key) =
        weigh (fun row => row.resourceType = key ∧ status row.status) ProcessorResource.allocated rows := by
    rw [weigh,weigh,List.filter_filter]
    refine congrArg (fun rows => (rows.map ProcessorResource.allocated).sum) (List.filter_congr fun row _ => ?_)
    rw [Bool.decide_and,Bool.decide_eq_true,Bool.and_comm]
  have all := counted_all (rows.filter fun row => row.resourceType = key) (-1) (-1)
  rw [show long (-1) = -1 from by decide] at all
  rw [oddResource,oddAllocated,oddPreAllocated,oddCount,oddCount,Int.sub_eq_add_neg,Int.sub_eq_add_neg,
    Int.add_comm _ (-1),Int.add_comm _ (-1),← odd (· = "allocated"),← odd (· ≠ "allocated")]
  exact all

private theorem count_all (statuses : ∀ row ∈ rows, row.status ≠ "") (resourceMap : String → Option ErResource) :
    rows.foldlM count resourceMap = .ok fun key =>
      if rows.filter (fun row => row.resourceType = key) = [] then resourceMap key
      else some ((rows.filter fun row => row.resourceType = key).foldl counted ((resourceMap key).getD {})) := by
  induction rows generalizing resourceMap with
  | nil => rfl
  | cons row rest ih =>
    obtain ⟨first,others⟩ := List.forall_mem_cons.mp statuses
    rw [List.foldlM_cons,count,if_neg first]
    change rest.foldlM count _ = _
    rw [ih others]
    refine congrArg Except.ok (funext fun key => ?_)
    by_cases same : row.resourceType = key
    · subst same
      simp only [List.filter_cons,decide_true,if_true,Function.update_self,Option.getD_some,List.foldl_cons,
        List.cons_ne_nil,if_false]
      split
      · rename_i empty
        rw [empty]
        rfl
      · rfl
    · simp only [List.filter_cons,same,decide_false,Bool.false_eq_true,if_false,
        Function.update_of_ne (Ne.symm same)]

private theorem count_null {row : ProcessorResource} (member : row ∈ rows) (null : row.status = "")
    (resourceMap : String → Option ErResource) : rows.foldlM count resourceMap = .error .nullPointer := by
  induction rows generalizing resourceMap with
  | nil => cases member
  | cons first rest ih =>
    rw [List.foldlM_cons,count]
    by_cases this : first.status = ""
    · rw [if_pos this]
      rfl
    · rw [if_neg this]
      rcases List.mem_cons.mp member with rfl | later
      · exact absurd null this
      · exact ih later _

private theorem values_eq (statuses : ∀ row ∈ rows, row.status ≠ "") (order : Order rows) :
    ∃ resourceMap, rows.foldlM count (fun _ => none) = .ok resourceMap ∧
      order.keys.filterMap resourceMap = order.keys.map (oddResource rows) := by
  refine ⟨_,count_all statuses _,?_⟩
  rw [← List.filterMap_eq_map]
  refine List.filterMap_congr fun key member => ?_
  obtain ⟨row,there,same⟩ := List.mem_map.mp ((order.mem key).mp member)
  have some_ : rows.filter (fun row => row.resourceType = key) ≠ [] :=
    List.ne_nil_of_mem (List.mem_filter.mpr ⟨there,decide_eq_true same⟩)
  rw [if_neg some_]
  exact congrArg some (counted_key key)

end

section
variable {column : Column} {serverNodeId : ℕ}

private theorem lastGiven_cons (count column : Int) (counts : List Int) :
    lastGiven (count :: counts) column = lastGiven counts (given count column) := by
  unfold lastGiven given
  by_cases there : 0 ≤ count
  · rw [List.filter_cons,if_pos (decide_eq_true there),if_pos there,List.getLast?_cons]
    rfl
  · rw [List.filter_cons,if_neg (by simpa using there),if_neg there]

private theorem meets_node {r : ErResource} (untyped : r.resourceType = "") (row : NodeResource) :
    r.meets column serverNodeId row = decide (row.serverNodeId = serverNodeId) := by
  have blank : isNotBlank r.resourceType = false := by
    rw [untyped]
    decide
  simp [ErResource.meets,blank]

private theorem updated_counts (rows : List ProcessorResource) (keys : List String) {row : NodeResource}
    (here : row.serverNodeId = serverNodeId) :
    updated column serverNodeId (keys.map (oddResource rows)) row =
      { row with
        allocated := lastGiven (keys.map (oddAllocated rows)) row.allocated
        preAllocated := lastGiven (keys.map (oddPreAllocated rows)) row.preAllocated } := by
  induction keys generalizing row with
  | nil => rfl
  | cons key rest ih =>
    have still : ((oddResource rows key).set row).serverNodeId = serverNodeId := here
    rw [List.map_cons,updated,List.foldl_cons,← updated,meets_node rfl,if_pos (decide_eq_true here),ih still,
      List.map_cons,List.map_cons,lastGiven_cons,lastGiven_cons]
    rfl

private theorem setsNothing_iff (rows : List ProcessorResource) (key : String) :
    (oddResource rows key).setsNothing = false ↔ 0 ≤ oddAllocated rows key ∨ 0 ≤ oddPreAllocated rows key := by
  have constant : (-1 : Int) < 0 := by decide
  simp only [ErResource.setsNothing,oddResource,decide_eq_false_iff_not,constant,true_and,and_true]
  omega

private theorem doUpdate_iff (column : Column) (serverNodeId : ℕ) (rows : List ProcessorResource) (keys : List String)
    (nodeResources after : List NodeResource) :
    doUpdateNodeResource column serverNodeId (keys.map (oddResource rows)) nodeResources = .ok after ↔
      (∀ key ∈ keys, 0 ≤ oddAllocated rows key ∨ 0 ≤ oddPreAllocated rows key) ∧
        after = nodeResources.map (updated column serverNodeId (keys.map (oddResource rows))) := by
  by_cases counts : ∀ key ∈ keys, 0 ≤ oddAllocated rows key ∨ 0 ≤ oddPreAllocated rows key
  · have sets : ∀ r ∈ keys.map (oddResource rows), r.setsNothing = false :=
      List.forall_mem_map.mpr fun key member => (setsNothing_iff rows key).mpr (counts key member)
    rw [doUpdate_ok sets,Except.ok.injEq]
    exact ⟨fun same => ⟨counts,same.symm⟩,fun both => both.2.symm⟩
  · refine ⟨fun done => ?_,fun both => absurd both.1 counts⟩
    push Not at counts
    obtain ⟨key,member,negative⟩ := counts
    have nothing : (oddResource rows key).setsNothing = true := by
      cases sets : (oddResource rows key).setsNothing with
      | true => rfl
      | false =>
        have := (setsNothing_iff rows key).mp sets
        omega
    rw [doUpdate_error (List.mem_map_of_mem member) nothing] at done
    cases done

private theorem updated_agrees (column : Column) (serverNodeId : ℕ) (rows : List ProcessorResource) (keys : List String) (tables : Tables) :
    Agrees { tables with
      nodeResources := tables.nodeResources.map (updated column serverNodeId (keys.map (oddResource rows))) } serverNodeId ↔
      ∀ row ∈ tables.nodeResources, row.serverNodeId = serverNodeId →
        lastGiven (keys.map (oddAllocated rows)) row.allocated =
            held tables serverNodeId row.resourceType "allocated" ∧
          lastGiven (keys.map (oddPreAllocated rows)) row.preAllocated =
            held tables serverNodeId row.resourceType "pre_allocated" := by
  refine List.forall_mem_map.trans (forall_congr' fun row => imp_congr_right fun _ => ?_)
  rw [updated_serverNodeId]
  refine imp_congr_right fun here => ?_
  rw [updated_counts rows keys here]
  rfl

end

section
variable {column : Column} {serverNodeId : ℕ} {tables : Tables} {order : Order (resourceList serverNodeId tables.processorResources)}

private theorem recount_of (statuses : ∀ row ∈ resourceList serverNodeId tables.processorResources, row.status ≠ "") :
    countAndUpdateNodeResourceInner column serverNodeId tables order =
      (doUpdateNodeResource column serverNodeId
        (order.keys.map (oddResource (resourceList serverNodeId tables.processorResources))) tables.nodeResources).map
          fun nodeResources => { tables with nodeResources := nodeResources } := by
  obtain ⟨resourceMap,counted,values⟩ := values_eq statuses order
  rw [countAndUpdateNodeResourceInner,counted]
  change (doUpdateNodeResource column serverNodeId (order.keys.filterMap resourceMap) tables.nodeResources >>= _) = _
  rw [values]
  cases doUpdateNodeResource column serverNodeId _ tables.nodeResources <;> rfl

private theorem recount_coincides : RecountAgrees column serverNodeId tables order ↔
    Coincides serverNodeId tables (resourceList serverNodeId tables.processorResources) order.keys := by
  by_cases statuses : ∀ row ∈ resourceList serverNodeId tables.processorResources, row.status ≠ ""
  · have update := doUpdate_iff column serverNodeId (resourceList serverNodeId tables.processorResources) order.keys
      tables.nodeResources
    have agrees := updated_agrees column serverNodeId (resourceList serverNodeId tables.processorResources) order.keys tables
    rw [RecountAgrees,recount_of statuses]
    constructor
    · rintro ⟨after,done,agree⟩
      cases result : doUpdateNodeResource column serverNodeId
          (order.keys.map (oddResource (resourceList serverNodeId tables.processorResources))) tables.nodeResources with
      | error failure =>
        rw [result] at done
        cases done
      | ok nodeResources =>
        obtain ⟨counts,rfl⟩ := (update nodeResources).mp result
        rw [result] at done
        cases done
        exact ⟨statuses,counts,agrees.mp agree⟩
    · intro coincides
      have result := (update _).mpr ⟨coincides.counts,rfl⟩
      rw [result]
      exact ⟨_,rfl,agrees.mpr coincides.agree⟩
  · push Not at statuses
    obtain ⟨row,member,null⟩ := statuses
    refine ⟨?_,fun coincides => absurd null (coincides.status row member)⟩
    rintro ⟨after,done,-⟩
    rw [countAndUpdateNodeResourceInner,count_null member null] at done
    cases done

end

private theorem order_nil {rows : List ProcessorResource} (order : Order rows) (none : rows = []) : order.keys = [] := by
  refine List.eq_nil_iff_forall_not_mem.mpr fun key member => ?_
  have := (order.mem key).mp member
  rw [none] at this
  cases this

end Eggroll.NodeResources
