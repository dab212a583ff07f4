import Eggroll.Library.FileTree
import Eggroll.MetaModel

/-! `Destroy.run` (`_multiple_store.py`): which directories it hands to `rmtree`. The tree of
the file system may hold links, and the data directory may be reached through one. -/
namespace Eggroll.Destroy
open Library
open MetaModel (ErStoreLocator ErTask)

inductive Raised | ValueError | OSError | AttributeError | IndexError
deriving Repr, DecidableEq

/-- `os.path.join` of the data directory and the components of a table. -/
def joined (data_dir : Str) (components : List String) : Str :=
  (components.map String.toList).foldl Str.join data_dir

def get_db_path_expanded (data_dir : Str) (store_type nameSpace name : String) (partition_id : Int) : Str :=
  joined data_dir [store_type,nameSpace,name,toString partition_id]

/-- The paths of the branch for the name `*`; `os.listdir` raises where there is no directory. -/
def target_paths (tree : FileTree) (data_dir : Str) (locator : ErStoreLocator) (partition_id : Int) :
    Except Raised (List Str) :=
  if locator.store_type = "*" then
    match tree.resolve data_dir true with
    | none => .error .OSError
    | some place =>
      if tree.node place = some .directory then
        .ok ((tree.listdir place).map fun store_type => joined (data_dir.join store_type) [locator.nameSpace])
      else .error .OSError
  else
    .ok [beforeLast "*".toList
      (get_db_path_expanded data_dir locator.store_type locator.nameSpace locator.name partition_id)]

def dangerous (data_dir realpath : Str) : Bool :=
  realpath == "/".toList || realpath == data_dir || !data_dir.isPrefixOf realpath

/-- `os.path.realpath` of a path that exists is the path of its place. -/
def removeTargets (data_dir : Str) : FileTree → List Str → FileTree × Option Raised
  | tree, [] => (tree,none)
  | tree, path :: rest =>
    match tree.resolve path true with
    | none => removeTargets data_dir tree rest
    | some place =>
      if dangerous data_dir place.render then (tree,some .ValueError)
      else removeTargets data_dir (tree.rmtree place.render) rest

def destroy (tree : FileTree) (data_dir : Str) (locator : ErStoreLocator) (partition_id : Int) :
    FileTree × Option Raised :=
  if locator.name = "*" then
    match target_paths tree data_dir locator partition_id with
    | .error raised => (tree,some raised)
    | .ok paths => removeTargets data_dir tree paths
  else (tree.rmtree (joined data_dir [locator.store_type,locator.nameSpace,locator.name]),none)

def run (tree : FileTree) (data_dir : Str) (task : ErTask) : FileTree × Option Raised :=
  if data_dir.isabs then
    match task.inputs with
    | [] => (tree,some .IndexError)
    | first_input :: _ =>
      match first_input.store_locator with
      | none => (tree,some .AttributeError)
      | some locator => destroy tree data_dir locator first_input.id
  else (tree,some .ValueError)

/-- What is removed lies strictly below the directory that `data_dir` names. -/
def StaysInside (tree : FileTree) (data_dir : Str) (task : ErTask) : Prop :=
  ∀ place, Removes tree (run tree data_dir task).1 place → FileTree.Within (tree.resolve data_dir true) place

/-- Every directory among the targets that passes the check is strictly below `top`. -/
def CheckedInside (top : Option Place) (data_dir : Str) : FileTree → List Str → Prop
  | _, [] => True
  | tree, path :: rest =>
    match tree.resolve path true with
    | none => CheckedInside top data_dir tree rest
    | some place => dangerous data_dir place.render = false →
      (tree.node place = some .directory → FileTree.Within top place) ∧
        CheckedInside top data_dir (tree.rmtree place.render) rest

/-- Without the name `*` the joined path is that of no directory outside. -/
def Careful (tree : FileTree) (data_dir : Str) (locator : ErStoreLocator) (partition_id : Int) : Prop :=
  if locator.name = "*" then
    ∀ paths, target_paths tree data_dir locator partition_id = .ok paths →
      CheckedInside (tree.resolve data_dir true) data_dir tree paths
  else tree.Spared (tree.resolve data_dir true) (joined data_dir [locator.store_type,locator.nameSpace,locator.name])

private theorem deep_of_checked {data_dir : Str} {place : Place} (passed : dangerous data_dir place.render = false) : place ≠ [] := by
  rintro rfl
  cases passed

private theorem shrinks_removeTargets (data_dir : Str) (tree : FileTree) (paths : List Str) :
    FileTree.Shrinks tree (removeTargets data_dir tree paths).1 := by
  induction paths generalizing tree with
  | nil => exact fun _ _ found => found
  | cons path rest ih =>
    rw [removeTargets]
    split
    · exact ih tree
    · split
      · exact fun _ _ found => found
      next place _ _ => exact fun _ _ found => tree.shrinks_rmtree place.render _ _ (ih _ _ _ found)

private theorem standing_of_within {top : Option Place} {before after : FileTree}
    (standing : ∀ directory, top = some directory → before.node directory ≠ none)
    (within : ∀ place, Removes before after place → FileTree.Within top place) :
    ∀ directory, top = some directory → after.node directory ≠ none := by
  intro directory named gone
  obtain ⟨t,same,below⟩ := within directory ⟨standing directory named,gone⟩
  obtain rfl := Option.some.inj (named.symm.trans same)
  exact ((Place.below_iff _ _).mp below).2 rfl

private theorem removeTargets_within_iff {top : Option Place} (data_dir : Str) (paths : List Str) {tree : FileTree}
    (standing : ∀ directory, top = some directory → tree.node directory ≠ none) :
    (∀ place, Removes tree (removeTargets data_dir tree paths).1 place → FileTree.Within top place) ↔
      CheckedInside top data_dir tree paths := by
  induction paths generalizing tree with
  | nil => exact ⟨fun _ => trivial,fun _ place removed => absurd removed (tree.not_removes_self place)⟩
  | cons path rest ih =>
    rw [removeTargets,CheckedInside]
    split
    · exact ih standing
    next place found =>
      cases passed : dangerous data_dir place.render with
      | true =>
        rw [if_pos rfl]
        exact ⟨fun _ impossible => (by cases impossible),
          fun _ other removed => absurd removed (tree.not_removes_self other)⟩
      | false =>
        rw [if_neg Bool.false_ne_true]
        have deep := deep_of_checked passed
        have present := tree.resolve_present found
        have first := tree.rmtree_within_iff standing place.render
        rw [tree.spared_render_iff deep present] at first
        have removes := FileTree.removes_trans (tree.shrinks_rmtree place.render)
          (shrinks_removeTargets data_dir (tree.rmtree place.render) rest)
        constructor
        · intro claimed _
          have now : ∀ other, Removes tree (tree.rmtree place.render) other → FileTree.Within top other :=
            fun other removed => claimed other ((removes other).mpr (.inl removed))
          exact ⟨first.mp now,(ih (standing_of_within standing now)).mp fun other removed =>
            claimed other ((removes other).mpr (.inr removed))⟩
        · intro inside other removed
          obtain ⟨here,later⟩ := inside rfl
          obtain now | then_ := (removes other).mp removed
          · exact first.mpr here other now
          · exact (ih (standing_of_within standing (first.mpr here))).mpr later other then_

private theorem destroy_within_iff (tree : FileTree) (data_dir : Str) (locator : ErStoreLocator) (partition_id : Int) :
    (∀ place, Removes tree (destroy tree data_dir locator partition_id).1 place →
      FileTree.Within (tree.resolve data_dir true) place) ↔ Careful tree data_dir locator partition_id := by
  have standing : ∀ directory, tree.resolve data_dir true = some directory → tree.node directory ≠ none :=
    fun _ found => tree.resolve_present found
  rw [destroy,Careful]
  by_cases star : locator.name = "*"
  · rw [if_pos star,if_pos star]
    cases targets : target_paths tree data_dir locator partition_id with
    | error raised =>
      exact ⟨fun _ _ impossible => (by cases impossible),
        fun _ place removed => absurd removed (tree.not_removes_self place)⟩
    | ok paths =>
      rw [removeTargets_within_iff data_dir paths standing]
      exact ⟨fun inside _ same => Except.ok.inj same ▸ inside,fun inside => inside paths rfl⟩
  · rw [if_neg star,if_neg star]
    exact tree.rmtree_within_iff standing _

/-- `Destroy.run` removes only what is strictly below the data directory exactly where the
paths that it builds are those of no directory elsewhere. -/
theorem run_inside_iff (tree : FileTree) (data_dir : Str) (task : ErTask) :
    StaysInside tree data_dir task ↔ ∀ first_input rest locator, data_dir.isabs = true →
      task.inputs = first_input :: rest → first_input.store_locator = some locator →
        Careful tree data_dir locator first_input.id := by
  have idle : ∀ place, Removes tree tree place → FileTree.Within (tree.resolve data_dir true) place :=
    fun place removed => absurd removed (tree.not_removes_self place)
  rw [StaysInside,run]
  cases absolute : data_dir.isabs with
  | false => exact ⟨fun _ _ _ _ impossible => (Bool.false_ne_true impossible).elim,fun _ => idle⟩
  | true =>
    rw [if_pos rfl]
    cases given : task.inputs with
    | nil => exact ⟨fun _ _ _ _ _ impossible => (by cases impossible),fun _ => idle⟩
    | cons first_input rest =>
      dsimp only
      cases located : first_input.store_locator with
      | none =>
        refine ⟨fun _ first_input' rest' locator _ same found => ?_,fun _ => idle⟩
        obtain ⟨rfl,rfl⟩ := List.cons.inj same
        rw [located] at found
        cases found
      | some locator =>
        dsimp only
        rw [destroy_within_iff]
        refine ⟨fun careful first_input' rest' locator' _ same found => ?_,fun careful => ?_⟩
        · obtain ⟨rfl,rfl⟩ := List.cons.inj same
          obtain rfl := Option.some.inj (located.symm.trans found)
          exact careful
        · exact careful first_input rest locator rfl rfl located

def exampleEntries : List (Place × FileNode) :=
  [["data"],["data","IN_MEMORY"],["data","IN_MEMORY","job"],["database"],["database","job"]].map fun place =>
    (place.map String.toList,.directory)

private theorem exampleEntries_closed : ∀ entry ∈ exampleEntries, findNode exampleEntries entry.1.dropLast = some .directory := by
  decide +kernel

theorem exampleEntries_named : ∀ entry ∈ exampleEntries, entry.1.all Str.isName = true := by decide +kernel

def exampleTree : FileTree := ⟨exampleEntries,exampleEntries_closed,exampleEntries_named⟩

def destroyTask (store_type name : String) : ErTask where
  id := "task"
  name := "destroy"
  inputs := [⟨0,some ⟨-1,store_type,"job",name,"",1,0,0,0⟩,none,-1⟩]
  outputs := []
  job := none

private theorem example_outside {store_type name : String} (removed : Removes exampleTree
    (run exampleTree "/data".toList (destroyTask store_type name)).1 ["database".toList,"job".toList]) :
    ¬ StaysInside exampleTree "/data".toList (destroyTask store_type name) := by
  intro inside
  obtain ⟨top,found,below⟩ := inside _ removed
  have here : exampleTree.resolve "/data".toList true = some ["data".toList] := by decide +kernel
  obtain rfl := Option.some.inj (here.symm.trans found)
  exact absurd below (by decide +kernel)

/-- A name with dots leads out of the data directory, and with the name `*` a sibling whose
name begins like the data directory's passes the check. -/
theorem run_outside : ¬ (∀ tree data_dir name, data_dir.isabs = true → name ≠ "*" →
      StaysInside tree data_dir (destroyTask "IN_MEMORY" name)) ∧
    ¬ ∀ tree data_dir store_type, data_dir.isabs = true → StaysInside tree data_dir (destroyTask store_type "*") := by
  constructor
  · intro claimed
    have inside := claimed exampleTree "/data".toList "../../../database" (by decide +kernel) (by decide +kernel)
    exact example_outside ⟨by decide +kernel,by decide +kernel⟩ inside
  · intro claimed
    have inside := claimed exampleTree "/data".toList "../database" (by decide +kernel)
    exact example_outside ⟨by decide +kernel,by decide +kernel⟩ inside

end Eggroll.Destroy
