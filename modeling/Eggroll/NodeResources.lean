import Eggroll.Cluster
import Eggroll.ResourceApplication

/-! The rows that the cluster manager keeps of a node's resources, and the bulk operations of
`NodeResourceService.java` on them: an update sets a column only where a value is given. -/
namespace Eggroll.NodeResources
open Cluster (NodeResource)

/-- The fields of an `ErResource` that the service reads. -/
structure ErResource where
  resourceType : String := ""
  total : Int := -1
  used : Int := -1
  allocated : Int := -1
  preAllocated : Int := -1
  extention : Option String := none
deriving Repr, DecidableEq

def toErResource (row : NodeResource) : ErResource :=
  ⟨row.resourceType,row.total,row.used,row.allocated,row.preAllocated,row.extention⟩

/-- What the database throws: the unique index refuses a row, the column cannot hold a value, or an
update sets no column. -/
inductive Failure
  | duplicate
  | badValue
  | badSql
  | nullPointer
deriving Repr, DecidableEq

/-- `Character.isWhitespace`. -/
def isWhitespace (c : Char) : Bool :=
  c.toNat ∈ [0x20,0x1680,0x180e,0x2028,0x2029,0x205f,0x3000] ∨ 9 ≤ c.toNat ∧ c.toNat ≤ 13 ∨
    0x1c ≤ c.toNat ∧ c.toNat ≤ 0x1f ∨ 0x2000 ≤ c.toNat ∧ c.toNat ≤ 0x200a ∧ c.toNat ≠ 0x2007

/-- `StringUtils.isNotBlank`. -/
def isNotBlank (s : String) : Bool := s.toList.any fun c => !isWhitespace c

/-- The column `resource_type`: which strings it can hold, and the weight by which its collation
compares them. -/
structure Column where
  holds : String → Bool
  weight : String → String

/-- `VARCHAR(255)` in this collation, for ASCII: case and trailing blanks do not count. -/
def latin1_swedish_ci : Column where
  holds s := s.length ≤ 255 && s.toList.all fun c => c.toNat < 128
  weight s := String.ofList ((s.toList.reverse.dropWhile (· = ' ')).reverse.map Char.toUpper)

section
variable (column : Column)

/-- What `idx_u_node_resource` compares of a row. -/
def key (row : NodeResource) : Int × String := (row.serverNodeId,column.weight row.resourceType)

variable (serverNodeId : Int)

def newRow (erResource : ErResource) : NodeResource :=
  ⟨serverNodeId,erResource.resourceType,erResource.total,max erResource.used 0,0,0,none⟩

def save (row : NodeResource) (rows : List NodeResource) : Except Failure (List NodeResource) :=
  if column.holds row.resourceType = false then .error .badValue
  else if rows.any fun other => key column other = key column row then .error .duplicate else .ok (rows ++ [row])

def doInsertNodeResource : List ErResource → List NodeResource → Except Failure (List NodeResource)
  | [], rows => .ok rows
  | erResource :: rest, rows => do
    let rows ← save column (newRow serverNodeId erResource) rows
    doInsertNodeResource rest rows

def ErResource.meets (erResource : ErResource) (row : NodeResource) : Bool :=
  (isNotBlank erResource.resourceType → column.weight row.resourceType = column.weight erResource.resourceType) ∧
    (0 ≤ serverNodeId → row.serverNodeId = serverNodeId)

def ErResource.setsNothing (erResource : ErResource) : Bool :=
  erResource.total < 0 ∧ erResource.allocated < 0 ∧ erResource.preAllocated < 0 ∧ erResource.used < 0 ∧
    erResource.extention = none

def given (count column : Int) : Int := if 0 ≤ count then count else column

def ErResource.set (erResource : ErResource) (row : NodeResource) : NodeResource :=
  { row with
    total := given erResource.total row.total
    allocated := given erResource.allocated row.allocated
    preAllocated := given erResource.preAllocated row.preAllocated
    used := given erResource.used row.used
    extention := erResource.extention <|> row.extention }

def update (erResource : ErResource) (rows : List NodeResource) : Except Failure (List NodeResource) :=
  if erResource.setsNothing then .error .badSql
  else .ok (rows.map fun row => if erResource.meets column serverNodeId row then erResource.set row else row)

def doUpdateNodeResource : List ErResource → List NodeResource → Except Failure (List NodeResource)
  | [], rows => .ok rows
  | erResource :: rest, rows => do
    let rows ← update column serverNodeId erResource rows
    doUpdateNodeResource rest rows

def doDeleteNodeResource : List ErResource → List NodeResource → List NodeResource
  | [], rows => rows
  | erResource :: rest, rows =>
    doDeleteNodeResource rest (rows.filter fun row =>
      ¬ (row.serverNodeId = serverNodeId ∧ column.weight row.resourceType = column.weight erResource.resourceType))

end

/-- `NodeResourceService.registerResource`. -/
def applyAll (column : Column) (serverNodeId : Int) (insertData updateData deleteData : List ErResource)
    (rows : List NodeResource) : Except Failure (List NodeResource) := do
  let rows ← if insertData.length > 0 then doInsertNodeResource column serverNodeId insertData rows else pure rows
  let rows ← if updateData.length > 0 then doUpdateNodeResource column serverNodeId updateData rows else pure rows
  if deleteData.length > 0 then pure (doDeleteNodeResource column serverNodeId deleteData rows) else pure rows

section
variable {column : Column} {serverNodeId : Int} {rows : List NodeResource}

def updated (column : Column) (serverNodeId : Int) (resources : List ErResource) (row : NodeResource) : NodeResource :=
  resources.foldl (fun row r => if r.meets column serverNodeId row then r.set row else row) row

theorem doUpdate_ok {resources : List ErResource} (sets : ∀ r ∈ resources, r.setsNothing = false) :
    doUpdateNodeResource column serverNodeId resources rows = .ok (rows.map (updated column serverNodeId resources)) := by
  induction resources generalizing rows with
  | nil => exact congrArg Except.ok (List.map_id _).symm
  | cons r rest ih =>
    obtain ⟨first,others⟩ := List.forall_mem_cons.mp sets
    rw [doUpdateNodeResource,update,first]
    change doUpdateNodeResource column serverNodeId rest _ = _
    rw [ih others,List.map_map]
    rfl

private theorem updated_kept (resources : List ErResource) (row : NodeResource) :
    (updated column serverNodeId resources row).serverNodeId = row.serverNodeId ∧
      (updated column serverNodeId resources row).resourceType = row.resourceType := by
  induction resources generalizing row with
  | nil => exact ⟨rfl,rfl⟩
  | cons r rest ih =>
    rw [updated,List.foldl_cons,← updated]
    split
    · exact ih (r.set row)
    · exact ih row

theorem updated_serverNodeId (resources : List ErResource) (row : NodeResource) :
    (updated column serverNodeId resources row).serverNodeId = row.serverNodeId := (updated_kept resources row).1

theorem updated_resourceType (resources : List ErResource) (row : NodeResource) :
    (updated column serverNodeId resources row).resourceType = row.resourceType := (updated_kept resources row).2

theorem updated_none {resources : List ErResource} {row : NodeResource}
    (none_meets : ∀ r ∈ resources, r.meets column serverNodeId row = false) : updated column serverNodeId resources row = row := by
  induction resources with
  | nil => rfl
  | cons r rest ih =>
    obtain ⟨first,others⟩ := List.forall_mem_cons.mp none_meets
    rw [updated,List.foldl_cons,first,if_neg Bool.false_ne_true,← updated,ih others]

theorem doUpdate_error {resources : List ErResource} {r : ErResource} (member : r ∈ resources)
    (nothing : r.setsNothing = true) : doUpdateNodeResource column serverNodeId resources rows = .error .badSql := by
  induction resources generalizing rows with
  | nil => cases member
  | cons first rest ih =>
    rw [doUpdateNodeResource,update]
    cases sets : first.setsNothing with
    | true => rfl
    | false =>
      have later : r ∈ rest := by
        rcases List.mem_cons.mp member with rfl | later
        · rw [nothing] at sets
          cases sets
        · exact later
      exact ih later

end

end Eggroll.NodeResources
