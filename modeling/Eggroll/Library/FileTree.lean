import Eggroll.Library.PyString
import Mathlib.Data.List.DropRight

/-! Directory trees with symbolic links. A path is a string whose names are walked from the
root, the kernel's way: at most forty links are followed, and a name that is not there ends
the walk. Paths are absolute; a relative one names nothing here. -/
namespace Library

abbrev Place := List Str

inductive FileNode | directory | file | link (target : Str)
deriving Repr, DecidableEq

def findNode (entries : List (Place × FileNode)) (place : Place) : Option FileNode :=
  if place = [] then some .directory
  else (entries.find? fun entry => entry.1 == place).map (·.2)

def Str.dot : Str := ['.']
def Str.dotdot : Str := ['.','.']

def Str.isName (name : Str) : Bool := name != [] && name != Str.dot && name != Str.dotdot && !name.contains '/'

/-- What is below the root; every entry has a name and stands in a directory. -/
structure FileTree where
  entries : List (Place × FileNode)
  closed : ∀ entry ∈ entries, findNode entries entry.1.dropLast = some .directory
  named : ∀ entry ∈ entries, entry.1.all Str.isName = true

/-- `os.path.isabs`. -/
def Str.isabs (path : Str) : Bool := path.head? == some '/'

/-- `os.path.join` of two paths. -/
def Str.join (path component : Str) : Str :=
  if component.isabs then component
  else if path = [] ∨ path.getLast? = some '/' then path ++ component
  else path ++ '/' :: component

def Place.render (place : Place) : Str :=
  if place = [] then ['/'] else place.flatMap ('/' :: ·)

/-- The walk from a directory up to a link, where `jump` goes on. Only the last link may stay
unfollowed, and a file ends the walk. -/
def walkWith (node : Place → Option FileNode) (jump : Place → List Str → Option Place) (follow : Bool) :
    Place → List Str → Option Place
  | place, [] => some place
  | place, name :: rest =>
    if name = [] ∨ name = Str.dot then walkWith node jump follow place rest
    else if name = Str.dotdot then walkWith node jump follow place.dropLast rest
    else
      match node (place ++ [name]) with
      | none => none
      | some .directory => walkWith node jump follow (place ++ [name]) rest
      | some .file => if rest = [] then some (place ++ [name]) else none
      | some (.link target) =>
        if rest = [] ∧ follow = false then some (place ++ [name])
        else jump (if target.isabs then [] else place) (target.splitOn '/' ++ rest)

def walk (node : Place → Option FileNode) (follow : Bool) : ℕ → Place → List Str → Option Place
  | 0 => walkWith node (fun _ _ => none) follow
  | links + 1 => walkWith node (walk node follow links) follow

def maxLinks : ℕ := 40

/-- `other` is strictly below `place`. -/
def Place.below (place other : Place) : Bool := place.isPrefixOf other && place != other

namespace FileTree

def node (tree : FileTree) (place : Place) : Option FileNode := findNode tree.entries place

def resolve (tree : FileTree) (path : Str) (follow : Bool) : Option Place :=
  if path.isabs then walk tree.node follow maxLinks [] (path.splitOn '/') else none

/-- `os.listdir` of a directory. -/
def listdir (tree : FileTree) (place : Place) : List Str :=
  (tree.entries.filter fun entry => entry.1 ≠ [] ∧ entry.1.dropLast = place).filterMap fun entry => entry.1.getLast?

end FileTree

theorem findNode_filter (entries : List (Place × FileNode)) (keep : Place → Bool) {place : Place}
    (kept : keep place = true) : findNode (entries.filter fun entry => keep entry.1) place = findNode entries place := by
  have same : (fun entry : Place × FileNode => decide (keep entry.1 = true ∧ (entry.1 == place) = true)) =
      fun entry => entry.1 == place := by
    funext entry
    by_cases here : entry.1 = place
    · simp [here,kept]
    · simp [here]
  rw [findNode,findNode,List.find?_filter,same]

theorem findNode_filter_gone (entries : List (Place × FileNode)) (keep : Place → Bool) {place : Place}
    (named : place ≠ []) (gone : keep place = false) :
    findNode (entries.filter fun entry => keep entry.1) place = none := by
  rw [findNode,if_neg named,Option.map_eq_none_iff,List.find?_eq_none]
  intro entry member same
  rw [beq_iff_eq] at same
  rw [List.mem_filter,same,gone] at member
  exact Bool.false_ne_true member.2

def Upward (gone : Place → Bool) : Prop := ∀ place name, gone place = true → gone (place ++ [name]) = true

theorem prune_closed (tree : FileTree) {gone : Place → Bool} (upward : Upward gone) :
    ∀ entry ∈ tree.entries.filter fun entry => !gone entry.1,
      findNode (tree.entries.filter fun entry => !gone entry.1) entry.1.dropLast = some .directory := by
  intro entry member
  obtain ⟨present,kept⟩ := List.mem_filter.mp member
  have parent : (!gone entry.1.dropLast) = true := by
    rw [Bool.not_eq_true'] at kept ⊢
    by_cases root : entry.1 = []
    · rw [root] at kept ⊢
      exact kept
    · rw [Bool.eq_false_iff]
      intro lost
      have last := upward _ (entry.1.getLast root) lost
      rw [List.dropLast_append_getLast,kept] at last
      exact Bool.false_ne_true last
  exact (findNode_filter tree.entries (fun place => !gone place) parent).trans (tree.closed entry present)

theorem Place.below_iff (place other : Place) : place.below other = true ↔ place <+: other ∧ place ≠ other := by
  simp [Place.below]

theorem Place.upward_below (place : Place) : Upward place.below := by
  intro other name below
  rw [Place.below_iff] at below ⊢
  refine ⟨below.1.trans (List.prefix_append _ _),fun same => ?_⟩
  have short := below.1.length_le
  rw [same,List.length_append,List.length_singleton] at short
  omega

theorem Place.upward_prefix (place : Place) : Upward (fun other => place.isPrefixOf other) := by
  intro other name within
  rw [List.isPrefixOf_iff_prefix] at within ⊢
  exact within.trans (List.prefix_append _ _)

namespace FileTree

def prune (tree : FileTree) (gone : Place → Bool) (upward : Upward gone) : FileTree where
  entries := tree.entries.filter fun entry => !gone entry.1
  closed := prune_closed tree upward
  named entry member := tree.named entry (List.mem_filter.mp member).1

def clear (tree : FileTree) (place : Place) : FileTree := tree.prune place.below place.upward_below

def delete (tree : FileTree) (place : Place) : FileTree :=
  tree.prune (fun other => place.isPrefixOf other) place.upward_prefix

def emptyAt (tree : FileTree) (place : Place) : Bool := tree.entries.all fun entry => !place.below entry.1

/-- `os.rmdir`, without its errors: the last name of the path is not followed, it is neither
of the dots, and it names an empty directory. -/
def rmdir (tree : FileTree) (path : Str) : FileTree :=
  let names := (path.splitOn '/').rdropWhile (· == [])
  match names.getLast? with
  | none => tree
  | some name =>
    if name = Str.dot ∨ name = Str.dotdot then tree
    else
      match walk tree.node false maxLinks [] names with
      | none => tree
      | some place => if tree.node place = some .directory ∧ tree.emptyAt place then tree.delete place else tree

/-- `shutil.rmtree` with `ignore_errors`: no link is removed by its own path, a file not at
all; a directory is emptied and then removed by `os.rmdir`. -/
def rmtree (tree : FileTree) (path : Str) : FileTree :=
  match tree.resolve path false with
  | none => tree
  | some place => if tree.node place = some .directory then (tree.clear place).rmdir path else tree

end FileTree

namespace FileTree
variable (tree : FileTree)

theorem node_prune {gone : Place → Bool} (upward : Upward gone) (place : Place) :
    (tree.prune gone upward).node place = if place = [] ∨ gone place = false then tree.node place else none := by
  by_cases root : place = []
  · rw [if_pos (.inl root),root]
    rfl
  by_cases kept : gone place = false
  · rw [if_pos (.inr kept)]
    exact findNode_filter tree.entries (fun place => !gone place) (by rw [kept]; rfl)
  · rw [if_neg (by simp [root,kept])]
    exact findNode_filter_gone tree.entries (fun place => !gone place) root (by simpa using kept)

theorem node_clear (place other : Place) :
    (tree.clear place).node other = if place.below other then none else tree.node other := by
  rw [clear,node_prune]
  by_cases below : place.below other = true
  · have named : other ≠ [] := by
      rintro rfl
      obtain ⟨within,distinct⟩ := (Place.below_iff _ _).mp below
      exact distinct (List.prefix_nil.mp within)
    simp [below,named]
  · simp [below]

theorem entry_of_node {place : Place} (deep : place ≠ []) (present : tree.node place ≠ none) :
    ∃ entry ∈ tree.entries, entry.1 = place := by
  rw [node,findNode,if_neg deep,ne_eq,Option.map_eq_none_iff,← ne_eq,Option.ne_none_iff_exists'] at present
  obtain ⟨entry,found⟩ := present
  exact ⟨entry,List.mem_of_find?_eq_some found,by simpa using List.find?_some found⟩

theorem parent_directory {place : Place} (present : tree.node place ≠ none) :
    tree.node place.dropLast = some .directory := by
  by_cases root : place = []
  · rw [root]
    rfl
  · obtain ⟨entry,member,rfl⟩ := tree.entry_of_node root present
    exact tree.closed entry member

theorem node_dropLast {place : Place} (directory : tree.node place = some .directory) :
    tree.node place.dropLast = some .directory := tree.parent_directory (by simp [directory])

end FileTree

section
variable {node node' : Place → Option FileNode} {follow : Bool}

theorem walkWith_mono {jump jump' : Place → List Str → Option Place}
    (fewer : ∀ place kind, node' place = some kind → node place = some kind)
    (jumps : ∀ place names result, jump' place names = some result → jump place names = some result)
    {place : Place} {names : List Str} {result : Place}
    (walked : walkWith node' jump' follow place names = some result) :
    walkWith node jump follow place names = some result := by
  induction names generalizing place with
  | nil => exact walked
  | cons name rest ih =>
    rw [walkWith] at walked ⊢
    split at walked
    next skip => rw [if_pos skip]; exact ih walked
    next named =>
      rw [if_neg named]
      split at walked
      next up => rw [if_pos up]; exact ih walked
      next down =>
        rw [if_neg down]
        split at walked
        · cases walked
        next found => rw [fewer _ _ found]; exact ih walked
        next found => rw [fewer _ _ found]; exact walked
        next target found =>
          rw [fewer _ _ found]
          dsimp only
          split at walked
          next last => rw [if_pos last]; exact walked
          next more => rw [if_neg more]; exact jumps _ _ _ walked

/-- In a tree with fewer places a path leads where it led before, if anywhere. -/
theorem walk_mono (fewer : ∀ place kind, node' place = some kind → node place = some kind) (links : ℕ)
    {place : Place} {names : List Str} {result : Place} (walked : walk node' follow links place names = some result) :
    walk node follow links place names = some result := by
  induction links generalizing place names result with
  | zero => exact walkWith_mono fewer (fun _ _ _ impossible => impossible) walked
  | succ links ih => exact walkWith_mono fewer (fun _ _ _ jumped => ih jumped) walked

theorem walkWith_present {jump : Place → List Str → Option Place}
    (parent : ∀ place, node place = some .directory → node place.dropLast = some .directory)
    (root : node [] = some .directory)
    (jumps : ∀ place names result, node place = some .directory → jump place names = some result → node result ≠ none)
    {place : Place} {names : List Str} {result : Place} (directory : node place = some .directory)
    (walked : walkWith node jump follow place names = some result) : node result ≠ none := by
  induction names generalizing place with
  | nil =>
    cases walked
    simp [directory]
  | cons name rest ih =>
    rw [walkWith] at walked
    split at walked
    · exact ih directory walked
    split at walked
    · exact ih (parent place directory) walked
    split at walked
    · cases walked
    next found => exact ih found walked
    next found =>
      obtain ⟨_,⟨⟩⟩ := Option.ite_none_right_eq_some.mp walked
      simp [found]
    next target found =>
      split at walked
      · cases walked
        simp [found]
      · refine jumps _ _ _ ?_ walked
        split
        · exact root
        · exact directory

theorem walk_present (parent : ∀ place, node place = some .directory → node place.dropLast = some .directory)
    (root : node [] = some .directory) (links : ℕ) {place : Place} {names : List Str} {result : Place}
    (directory : node place = some .directory) (walked : walk node follow links place names = some result) :
    node result ≠ none := by
  induction links generalizing place names result with
  | zero => exact walkWith_present parent root (fun _ _ _ _ impossible => by cases impossible) directory walked
  | succ links ih => exact walkWith_present parent root (fun _ _ _ here jumped => ih here jumped) directory walked

theorem walkWith_replicate (jump : Place → List Str → Option Place) (place : Place) (slashes : ℕ) :
    walkWith node jump follow place (List.replicate slashes []) = some place := by
  induction slashes with
  | zero => rfl
  | succ slashes ih =>
    rw [List.replicate_succ,walkWith,if_pos (.inl rfl)]
    exact ih

theorem walkWith_slashes {jump jump' : Place → List Str → Option Place} {follow' : Bool} (slashes : ℕ)
    (jumps : ∀ place names result, jump place names = some result → node result = some .directory →
      jump' place (names ++ List.replicate slashes []) = some result)
    {place : Place} {names : List Str} {result : Place}
    (walked : walkWith node jump false place names = some result) (directory : node result = some .directory) :
    walkWith node jump' follow' place (names ++ List.replicate slashes []) = some result := by
  induction names generalizing place with
  | nil => exact (walkWith_replicate jump' place slashes).trans walked
  | cons name rest ih =>
    rw [List.cons_append,walkWith]
    rw [walkWith] at walked
    split at walked
    next skip => rw [if_pos skip]; exact ih walked
    next named =>
      rw [if_neg named]
      split at walked
      next up => rw [if_pos up]; exact ih walked
      next down =>
        rw [if_neg down]
        split at walked
        · cases walked
        next => exact ih walked
        next found =>
          obtain ⟨_,⟨⟩⟩ := Option.ite_none_right_eq_some.mp walked
          rw [found] at directory
          cases directory
        next target found =>
          split at walked
          · cases walked
            rw [found] at directory
            cases directory
          next more =>
            have goes : ¬ (rest ++ List.replicate slashes [] = [] ∧ follow' = false) := by
              intro last
              exact more ⟨(List.append_eq_nil_iff.mp last.1).1,rfl⟩
            rw [if_neg goes,← List.append_assoc]
            exact jumps _ _ _ walked directory

theorem walk_slashes (slashes links : ℕ) {follow' : Bool} {place : Place} {names : List Str} {result : Place}
    (walked : walk node false links place names = some result) (directory : node result = some .directory) :
    walk node follow' links place (names ++ List.replicate slashes []) = some result := by
  induction links generalizing place names result with
  | zero => exact walkWith_slashes slashes (fun _ _ _ impossible => by cases impossible) walked directory
  | succ links ih => exact walkWith_slashes slashes (fun _ _ _ jumped here => ih jumped here) walked directory

theorem walkWith_append {node : Place → Option FileNode} {jump jump' : Place → List Str → Option Place} {more : List Str}
    {place result : Place} (unfiled : ∀ place, node place ≠ some .file)
    (rest : ∀ jump, walkWith node jump true place more = some result)
    (jumps : ∀ start names, jump start names = some place → jump' start (names ++ more) = some result)
    {start : Place} {names : List Str} (walked : walkWith node jump true start names = some place) :
    walkWith node jump' true start (names ++ more) = some result := by
  induction names generalizing start with
  | nil =>
    cases walked
    exact rest jump'
  | cons name names ih =>
    rw [List.cons_append,walkWith]
    rw [walkWith] at walked
    split at walked
    next skip => rw [if_pos skip]; exact ih walked
    next named =>
      rw [if_neg named]
      split at walked
      next up => rw [if_pos up]; exact ih walked
      next down =>
        rw [if_neg down]
        split at walked
        · cases walked
        · exact ih walked
        next file => exact absurd file (unfiled _)
        next target found =>
          rw [if_neg (by simp)] at walked ⊢
          rw [← List.append_assoc]
          exact jumps _ _ walked

theorem walk_append {node : Place → Option FileNode} {more : List Str} {place result : Place}
    (unfiled : ∀ place, node place ≠ some .file) (rest : ∀ jump, walkWith node jump true place more = some result)
    {links : ℕ} {start : Place} {names : List Str} (walked : walk node true links start names = some place) :
    walk node true links start (names ++ more) = some result := by
  induction links generalizing start names with
  | zero => exact walkWith_append unfiled rest (fun _ _ jumped => by cases jumped) walked
  | succ links ih => exact walkWith_append unfiled rest (fun _ _ jumped => ih jumped) walked

theorem walkWith_down {node : Place → Option FileNode} (jump : Place → List Str → Option Place) {follow : Bool}
    {start : Place} {names : List Str} (directories : ∀ below, node (start ++ below) = some .directory)
    (plain : Str.dotdot ∉ names) :
    walkWith node jump follow start names = some (start ++ names.filter fun name => name ≠ [] ∧ name ≠ Str.dot) := by
  induction names generalizing start with
  | nil => rw [List.filter_nil,List.append_nil,walkWith]
  | cons name names ih =>
    have later : Str.dotdot ∉ names := fun member => plain (List.mem_cons_of_mem _ member)
    rw [walkWith]
    split
    · rename_i skip
      rw [ih directories later,List.filter_cons_of_neg (by simpa using fun named => skip.resolve_left named)]
    · rename_i named
      rw [if_neg (fun up : name = Str.dotdot => plain (up ▸ List.mem_cons_self)),directories [name],List.filter_cons_of_pos (by simpa using named)]
      dsimp only
      rw [ih (fun below => ?_) later,List.append_assoc]
      · rfl
      · rw [List.append_assoc]
        exact directories (name :: below)

end

def Removes (before after : FileTree) (place : Place) : Prop := before.node place ≠ none ∧ after.node place = none

theorem rdropWhile_replicate (names : List Str) :
    ∃ slashes, names = names.rdropWhile (· == []) ++ List.replicate slashes [] := by
  induction names using List.reverseRecOn with
  | nil => exact ⟨0,rfl⟩
  | append_singleton names name ih =>
    by_cases empty : name = []
    · obtain ⟨slashes,split⟩ := ih
      refine ⟨slashes + 1,?_⟩
      rw [List.rdropWhile_concat_pos _ _ _ (by simp [empty]),List.replicate_succ',← List.append_assoc,← split,empty]
    · exact ⟨0,by rw [List.rdropWhile_concat_neg _ _ _ (by simp [empty])]; simp⟩

namespace FileTree
variable (tree : FileTree)

theorem resolve_present {path : Str} {follow : Bool} {place : Place} (found : tree.resolve path follow = some place) :
    tree.node place ≠ none := by
  obtain ⟨_,walked⟩ := Option.ite_none_right_eq_some.mp found
  have root : tree.node [] = some .directory := rfl
  exact walk_present (fun _ here => tree.node_dropLast here) root maxLinks root walked

theorem node_of_clear {place other : Place} {kind : FileNode} (found : (tree.clear place).node other = some kind) :
    tree.node other = some kind := by
  rw [node_clear] at found
  split at found
  · cases found
  · exact found

theorem rmdir_clear {path : Str} {place : Place} (found : tree.resolve path false = some place) :
    (tree.clear place).rmdir path = tree.clear place ∨
      (tree.clear place).rmdir path = (tree.clear place).delete place := by
  obtain ⟨_,walked⟩ := Option.ite_none_right_eq_some.mp found
  rw [rmdir]
  split
  · exact .inl rfl
  split
  · exact .inl rfl
  split
  · exact .inl rfl
  next other reached =>
    split
    next directory =>
      obtain ⟨slashes,names⟩ := rdropWhile_replicate (path.splitOn '/')
      have before := walk_mono (fun _ _ => tree.node_of_clear) maxLinks reached
      have same : walk tree.node false _ _ _ = _ := walk_slashes slashes maxLinks before (tree.node_of_clear directory.1)
      rw [← names,walked] at same
      obtain rfl := Option.some.inj same
      exact .inr rfl
    · exact .inl rfl

theorem rmtree_of_directory {path : Str} {place : Place} (found : tree.resolve path false = some place)
    (directory : tree.node place = some .directory) : tree.rmtree path = (tree.clear place).rmdir path := by
  rw [rmtree,found]
  exact if_pos directory

theorem rmtree_idle {path : Str}
    (nowhere : ∀ place, tree.resolve path false = some place → tree.node place ≠ some .directory) :
    tree.rmtree path = tree := by
  rw [rmtree]
  split
  · rfl
  next place found => exact if_neg (nowhere place found)

theorem node_of_rmtree {path : Str} {other : Place} {kind : FileNode} (found : (tree.rmtree path).node other = some kind) :
    tree.node other = some kind := by
  by_cases nowhere : ∀ place, tree.resolve path false = some place → tree.node place ≠ some .directory
  · rw [tree.rmtree_idle nowhere] at found
    exact found
  push Not at nowhere
  obtain ⟨place,resolved,directory⟩ := nowhere
  rw [tree.rmtree_of_directory resolved directory] at found
  obtain same | deleted := tree.rmdir_clear resolved
  · rw [same] at found
    exact tree.node_of_clear found
  · rw [deleted,delete,node_prune] at found
    obtain ⟨_,kept⟩ := Option.ite_none_right_eq_some.mp found
    exact tree.node_of_clear kept

/-- All that is in the directory goes, and the directory itself when `rmdir` does not fail. -/
theorem removes_rmtree {path : Str} {place : Place} (found : tree.resolve path false = some place)
    (directory : tree.node place = some .directory) (other : Place) :
    Removes tree (tree.rmtree path) other ↔ tree.node other ≠ none ∧
      (place.below other = true ∨ other = place ∧ ((tree.clear place).rmdir path).node place = none) := by
  rw [Removes,tree.rmtree_of_directory found directory]
  refine and_congr_right fun present => ?_
  obtain same | deleted := tree.rmdir_clear found
  · rw [same,node_clear,node_clear]
    have distinct : place.below place ≠ true := fun below => ((Place.below_iff _ _).mp below).2 rfl
    rw [if_neg distinct,directory]
    by_cases below : place.below other = true
    · simp [below]
    · simp [below,present]
  · have away (spared : place.below other = false) (distinct : other ≠ place) : place.isPrefixOf other = false := by
      rw [Bool.eq_false_iff,ne_eq,List.isPrefixOf_iff_prefix]
      intro within
      exact Bool.eq_false_iff.mp spared ((Place.below_iff _ _).mpr ⟨within,Ne.symm distinct⟩)
    rw [deleted,delete,node_prune,node_clear]
    cases below : place.below other with
    | true => simp
    | false =>
      by_cases same : other = place
      · subst same
        rw [node_prune,node_clear,below]
        simp
      · simp [away below same,same,present]

/-- `place` is strictly below the place that `top` names, if it names one. -/
def Within (top : Option Place) (place : Place) : Prop := ∃ directory, top = some directory ∧ directory.below place = true

/-- Where `rmtree` may be called: on no directory, or on one strictly below `top`. A path that
`os.rmdir` refuses (one that ends in dots, the root's) may also name `top` itself or an empty
directory, since nothing is removed by its last step. -/
def Spared (tree : FileTree) (top : Option Place) (path : Str) : Prop :=
  ∀ place, tree.resolve path false = some place → tree.node place = some .directory →
    Within top place ∨ ((tree.clear place).rmdir path).node place ≠ none ∧
      (top = some place ∨ tree.emptyAt place = true)

theorem emptyAt_iff (place : Place) :
    tree.emptyAt place = true ↔ ∀ other, place.below other = true → tree.node other = none := by
  rw [emptyAt,List.all_eq_true]
  constructor
  · intro empty other below
    have named : other ≠ [] := by
      rintro rfl
      obtain ⟨within,distinct⟩ := (Place.below_iff _ _).mp below
      exact distinct (List.prefix_nil.mp within)
    rw [node,findNode,if_neg named,Option.map_eq_none_iff,List.find?_eq_none]
    intro entry member here
    rw [beq_iff_eq] at here
    have spared := empty entry member
    rw [here,below] at spared
    cases spared
  · intro empty entry member
    rw [Bool.not_eq_true',Bool.eq_false_iff]
    intro below
    have absent := empty entry.1 below
    rw [node,findNode] at absent
    split at absent
    · cases absent
    · rw [Option.map_eq_none_iff,List.find?_eq_none] at absent
      exact absent entry member (beq_self_eq_true _)

theorem not_removes_self (place : Place) : ¬ Removes tree tree place := fun removed => removed.1 removed.2

/-- `rmtree` removes only what is strictly below `top` exactly where it is spared. -/
theorem rmtree_within_iff {top : Option Place} (standing : ∀ directory, top = some directory → tree.node directory ≠ none)
    (path : Str) : (∀ place, Removes tree (tree.rmtree path) place → Within top place) ↔ tree.Spared top path := by
  constructor
  · intro claimed place found directory
    by_cases within : Within top place
    · exact .inl within
    have removes := tree.removes_rmtree found directory
    refine .inr ⟨fun gone => ?_,?_⟩
    · exact within (claimed place ((removes place).mpr ⟨by simp [directory],.inr ⟨rfl,gone⟩⟩))
    · rw [emptyAt_iff]
      by_contra neither
      push Not at neither
      obtain ⟨elsewhere,other,below,present⟩ := neither
      obtain ⟨t,named,above⟩ := claimed other ((removes other).mpr ⟨present,.inl below⟩)
      have apart : t ≠ place := fun same => elsewhere (same ▸ named)
      obtain ⟨upper,_⟩ := (Place.below_iff _ _).mp above
      obtain ⟨lower,_⟩ := (Place.below_iff _ _).mp below
      obtain inside | outside := List.prefix_or_prefix_of_prefix upper lower
      · exact within ⟨t,named,(Place.below_iff _ _).mpr ⟨inside,apart⟩⟩
      · have taken := (removes t).mpr ⟨standing t named,.inl ((Place.below_iff _ _).mpr ⟨outside,Ne.symm apart⟩)⟩
        obtain ⟨t',named',above'⟩ := claimed t taken
        obtain rfl : t = t' := Option.some.inj (named.symm.trans named')
        exact ((Place.below_iff _ _).mp above').2 rfl
  · intro spared other removed
    by_cases nowhere : ∀ place, tree.resolve path false = some place → tree.node place ≠ some .directory
    · rw [tree.rmtree_idle nowhere] at removed
      exact absurd removed (tree.not_removes_self other)
    push Not at nowhere
    obtain ⟨place,found,directory⟩ := nowhere
    obtain ⟨present,taken⟩ := (tree.removes_rmtree found directory other).mp removed
    obtain ⟨t,named,above⟩ | ⟨survives,harmless⟩ := spared place found directory
    · refine ⟨t,named,?_⟩
      obtain below | ⟨rfl,_⟩ := taken
      · obtain ⟨upper,apart⟩ := (Place.below_iff _ _).mp above
        obtain ⟨lower,_⟩ := (Place.below_iff _ _).mp below
        refine (Place.below_iff _ _).mpr ⟨upper.trans lower,fun same => apart ?_⟩
        subst same
        exact List.IsPrefix.eq_of_length_le upper lower.length_le
      · exact above
    · obtain below | ⟨rfl,gone⟩ := taken
      · obtain named | empty := harmless
        · exact ⟨place,named,below⟩
        · exact absurd ((tree.emptyAt_iff place).mp empty other below) present
      · exact absurd gone survives

theorem named_of_node {place : Place} (present : tree.node place ≠ none) : ∀ name ∈ place, name.isName = true := by
  by_cases root : place = []
  · subst root
    exact fun _ member => absurd member List.not_mem_nil
  · obtain ⟨entry,member,rfl⟩ := tree.entry_of_node root present
    exact List.all_eq_true.mp (tree.named entry member)

theorem splitOn_render {place : Place} (deep : place ≠ []) (names : ∀ name ∈ place, name.isName = true) :
    place.render.splitOn '/' = [] :: place := by
  have rendered : place.render = ['/'].intercalate ([] :: place) := by
    rw [Place.render,if_neg deep]
    clear names deep
    induction place with
    | nil => rfl
    | cons name rest ih =>
      rw [List.flatMap_cons,ih]
      cases rest with
      | nil => simp [List.intercalate,List.intersperse]
      | cons next rest => simp [List.intercalate,List.intersperse]
  rw [rendered]
  apply List.splitOn_intercalate
  · intro name member
    obtain rfl | inside := List.mem_cons.mp member
    · exact List.not_mem_nil
    · have valid := names name inside
      simp only [Str.isName,Bool.and_eq_true,Bool.not_eq_true',List.contains_eq_mem,decide_eq_false_iff_not] at valid
      exact valid.2
  · exact List.cons_ne_nil _ _

theorem directory_of_prefix {place prior : Place} (directory : tree.node place = some .directory)
    (within : prior <+: place) : tree.node prior = some .directory := by
  induction place using List.reverseRecOn with
  | nil =>
    rw [List.prefix_nil.mp within]
    exact directory
  | append_singleton place name ih =>
    obtain same | inside := List.prefix_concat_iff.mp within
    · rw [same]
      exact directory
    · have parent := tree.node_dropLast directory
      rw [List.dropLast_concat] at parent
      exact ih parent inside

theorem walkWith_names {node : Place → Option FileNode} {follow : Bool} (jump : Place → List Str → Option Place)
    {start names : Place} (rest : List Str) (valid : ∀ name ∈ names, name.isName = true)
    (directories : ∀ prior, prior <+: names → node (start ++ prior) = some .directory) :
    walkWith node jump follow start (names ++ rest) = walkWith node jump follow (start ++ names) rest := by
  induction names generalizing start with
  | nil => rw [List.nil_append,List.append_nil]
  | cons name names ih =>
    have kind := valid name List.mem_cons_self
    simp only [Str.isName,Bool.and_eq_true,bne_iff_ne] at kind
    rw [List.cons_append,walkWith,if_neg (by simp [kind.1.1.1,kind.1.1.2]),if_neg kind.1.2,
      directories [name] (List.prefix_append [name] names)]
    dsimp only
    rw [ih (fun other member => valid other (List.mem_cons_of_mem _ member)) fun prior within => ?_]
    · rw [List.append_assoc]
      rfl
    · rw [List.append_assoc]
      exact directories (name :: prior) (List.cons_prefix_cons.mpr ⟨rfl,within⟩)

theorem walkWith_last {node : Place → Option FileNode} (jump : Place → List Str → Option Place) {start : Place}
    {name : Str} (valid : name.isName = true) (present : node (start ++ [name]) ≠ none) :
    walkWith node jump false start [name] = some (start ++ [name]) := by
  simp only [Str.isName,Bool.and_eq_true,bne_iff_ne] at valid
  rw [walkWith,if_neg (by simp [valid.1.1.1,valid.1.1.2]),if_neg valid.1.2]
  split
  next absent => exact absurd absent present
  · rfl
  · exact if_pos rfl
  · exact if_pos ⟨rfl,rfl⟩

theorem walk_canonical {place : Place} (present : tree.node place ≠ none) (links : ℕ) :
    walk tree.node false links [] ([] :: place) = some place := by
  have down (jump : Place → List Str → Option Place) : walkWith tree.node jump false [] ([] :: place) = some place := by
    rw [walkWith,if_pos (.inl rfl)]
    induction place using List.reverseRecOn with
    | nil => rfl
    | append_singleton parent name _ =>
      have valid := tree.named_of_node present
      have directory : tree.node parent = some .directory := by
        have above := tree.parent_directory present
        rw [List.dropLast_concat] at above
        exact above
      have directories (prior : Place) (within : prior <+: parent) : tree.node ([] ++ prior) = some .directory :=
        tree.directory_of_prefix directory within
      rw [walkWith_names jump [name] (fun other member => valid other (List.mem_append_left _ member)) directories,
        List.nil_append]
      exact walkWith_last jump (valid name (by simp)) present
  cases links with
  | zero => exact down _
  | succ links => exact down _

theorem isabs_render (place : Place) : place.render.isabs = true := by
  cases place with
  | nil => rfl
  | cons name rest => rfl

theorem resolve_render {place : Place} (deep : place ≠ []) (present : tree.node place ≠ none) :
    tree.resolve place.render false = some place := by
  rw [resolve,if_pos (isabs_render place),splitOn_render deep (tree.named_of_node present)]
  exact tree.walk_canonical present maxLinks

theorem rmdir_render {place : Place} (deep : place ≠ []) (directory : tree.node place = some .directory) :
    ((tree.clear place).rmdir place.render).node place = none := by
  have present : tree.node place ≠ none := by simp [directory]
  have valid := tree.named_of_node present
  have last := valid _ (List.getLast_mem deep)
  simp only [Str.isName,Bool.and_eq_true,bne_iff_ne] at last
  have cleared : (tree.clear place).node place = some .directory := by
    rw [node_clear,if_neg fun below => ((Place.below_iff _ _).mp below).2 rfl]
    exact directory
  have empty : (tree.clear place).emptyAt place = true := by
    rw [emptyAt_iff]
    intro other below
    rw [node_clear,if_pos below]
  have names : ([] :: place : List Str).rdropWhile (· == []) = [] :: place := by
    rw [List.rdropWhile_eq_self_iff]
    intro _
    simp [List.getLast_cons deep,last.1.1.1]
  have final : ([] :: place : List Str).getLast? = some (place.getLast deep) := by
    rw [List.getLast?_eq_getLast_of_ne_nil (List.cons_ne_nil _ _),List.getLast_cons deep]
  have kept : (tree.clear place).node place ≠ none := by simp [cleared]
  have reached := (tree.clear place).walk_canonical kept maxLinks
  rw [rmdir,splitOn_render deep valid]
  simp only [names,final]
  rw [if_neg (by simp [last.1.1.2,last.1.2]),reached]
  dsimp only
  rw [if_pos ⟨cleared,empty⟩,delete,node_prune,if_neg (by simp [deep])]

/-- A directory's own path is spared exactly when the directory is strictly below `top`. -/
theorem spared_render_iff {top : Option Place} {place : Place} (deep : place ≠ []) (present : tree.node place ≠ none) :
    tree.Spared top place.render ↔ (tree.node place = some .directory → Within top place) := by
  have found := tree.resolve_render deep present
  constructor
  · intro spared directory
    obtain within | ⟨survives,_⟩ := spared place found directory
    · exact within
    · exact absurd (tree.rmdir_render deep directory) survives
  · intro within other resolved directory
    obtain rfl := Option.some.inj (found.symm.trans resolved)
    exact .inl (within directory)

def Shrinks (before after : FileTree) : Prop := ∀ place kind, after.node place = some kind → before.node place = some kind

theorem Shrinks.none {before after : FileTree} (shrinks : Shrinks before after) {place : Place}
    (absent : before.node place = none) : after.node place = none := by
  cases found : after.node place with
  | none => rfl
  | some kind =>
    rw [shrinks place kind found] at absent
    cases absent

theorem shrinks_rmtree (path : Str) : Shrinks tree (tree.rmtree path) := fun _ _ found => tree.node_of_rmtree found

theorem removes_trans {before middle after : FileTree} (first : Shrinks before middle) (second : Shrinks middle after)
    (place : Place) : Removes before after place ↔ Removes before middle place ∨ Removes middle after place := by
  constructor
  · rintro ⟨present,absent⟩
    by_cases gone : middle.node place = none
    · exact .inl ⟨present,gone⟩
    · exact .inr ⟨gone,absent⟩
  · rintro (⟨present,gone⟩ | ⟨kept,absent⟩)
    · exact ⟨present,second.none gone⟩
    · exact ⟨fun missing => kept (first.none missing),absent⟩

end FileTree
end Library
