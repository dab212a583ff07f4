import Mathlib.Data.List.Infix
import Mathlib.Data.List.Perm.Subperm
import Eggroll.Library.Attempt
import Eggroll.Library.FileTree
import Eggroll.Library.PyBytes

/-! The start of a container's process (`ProcessContainer.java`): its files and archives are put
into the working directory (`WorkingDirectoryPreparer.java`), then the command is launched. -/
namespace Eggroll.WorkingDirectory
open Library

structure Path where
  absolute : Bool
  names : List Str
deriving Repr, DecidableEq

namespace Path

def of (name : Str) : Path := ⟨name.isabs,(name.splitOn '/').filter (· ≠ [])⟩

def resolve (path other : Path) : Path :=
  if other.absolute then other else ⟨path.absolute,path.names ++ other.names⟩

/-- `java.io.File.getParentFile`. -/
def getParentFile (path : Path) : Option Path :=
  if path.names = [] ∨ path.absolute = false ∧ path.names.length = 1 then none
  else some ⟨path.absolute,path.names.dropLast⟩

end Path

/-- The directory that the node manager runs in, and the links of the disk. -/
structure Machine where
  userDir : List Str
  links : Place → Option Str

namespace Machine

def toAbsolutePath (machine : Machine) (path : Path) : Path :=
  if path.absolute then path else ⟨true,machine.userDir ++ path.names⟩

def node (machine : Machine) (place : Place) : Option FileNode :=
  some (match machine.links place with
    | some target => .link target
    | none => .directory)

def locate (machine : Machine) (path : Path) : Option Place :=
  walk machine.node true maxLinks [] (machine.toAbsolutePath path).names

end Machine

/-- A step of `prepare` or `start` that may raise. `getPath` is the conversion of a name in
`Path.resolve`, `mkdirs` is `getParentFile().mkdirs()`, `unreadable` a read of an archive
that raises, `null` a dereference of a field that is not set. -/
inductive Call
  | getPath (name : Str)
  | createDirectories (path : Path)
  | opens (path : Path)
  | write (content : Bytes)
  | close
  | mkdirs (path : Path)
  | unreadable
  | null
  | createNewFile (path : Path)
  | redirect (path : Path)
  | environment (extraEnv : Option (List (Str × Str)))
  | launch
  | delete (path : Path)
deriving Repr, DecidableEq

def Call.path : Call → Option Path
  | .createDirectories path | .opens path | .createNewFile path | .redirect path | .delete path => some path
  | .mkdirs path => path.getParentFile
  | _ => none

/-- What the file system answers: whether it raises, how many bytes of a write are on the disk then,
and which of the places that were asked for are new or gone. -/
structure Outcome where
  raises : Bool
  count : Nat
  changes : Place → Bool

inductive Touch
  | file (place : Place)
  | directory (place : Place)
deriving Repr, DecidableEq

/-- The file that is being written, those that were closed with all that was written to them, and
what the disk has of them now. -/
structure Written where
  stream : Option Place × Bytes
  complete : List (Option Place × Bytes)
  contents : Place → Option Bytes

def put (contents : Place → Option Bytes) (file : Option Place × Bytes) : Place → Option Bytes :=
  file.1.elim contents fun place => Function.update contents place (some file.2)

structure Disk where
  touched : List Touch
  written : Written

def Disk.untouched : Disk := ⟨[],⟨(none,[]),[],fun _ => none⟩⟩

def nul : Char := Char.ofNat 0

/-- What `ProcessEnvironment` takes. -/
def legal (entry : Str × Str) : Bool :=
  !entry.1.contains '=' && !entry.1.contains nul && !entry.2.contains nul

namespace Machine

def ok (machine : Machine) : Call → Outcome → Bool
  | .getPath name, _ => !name.contains nul
  | .createDirectories path, answer | .opens path, answer | .createNewFile path, answer | .redirect path, answer =>
    !answer.raises && (machine.locate path).isSome
  | .mkdirs path, _ => path.getParentFile.isSome
  | .unreadable, _ | .null, _ => false
  | .environment extraEnv, _ => extraEnv.any fun entries => entries.all legal
  | .delete _, _ => true
  | _, answer => !answer.raises

def touches (machine : Machine) : Call → Outcome → List Touch
  | .createDirectories path, answer =>
    (((machine.locate path).elim [] List.inits).filter answer.changes).map .directory
  | .mkdirs path, answer =>
    ((((path.getParentFile).bind machine.locate).elim [] List.inits).filter answer.changes).map .directory
  | .opens path, answer | .redirect path, answer =>
    if answer.raises then [] else (machine.locate path).toList.map .file
  | .createNewFile path, answer =>
    if answer.raises then [] else ((machine.locate path).toList.filter answer.changes).map .file
  | .delete path, answer => ((machine.locate path).toList.filter answer.changes).map .directory
  | _, _ => []

def written (machine : Machine) (written : Written) : Call → Outcome → Written
  | .opens path, answer =>
    if answer.raises then written
    else { written with
      stream := (machine.locate path,[])
      contents := put written.contents (machine.locate path,[]) }
  | .write content, answer =>
    let stream := (written.stream.1,written.stream.2 ++ if answer.raises then content.take answer.count else content)
    { written with
      stream := stream
      contents := put written.contents stream }
  | .close, answer => if answer.raises then written else { written with complete := written.complete ++ [written.stream] }
  | .redirect path, answer =>
    if answer.raises then written else { written with contents := put written.contents (machine.locate path,[]) }
  | _, _ => written

def act (machine : Machine) (disk : Disk) (call : Call) (answer : Outcome) : Disk :=
  ⟨disk.touched ++ machine.touches call answer,machine.written disk.written call answer⟩

def attempt (machine : Machine) (env : Nat → Outcome) (calls : List Call) (disk : Disk) : Disk × Bool :=
  Attempt.attempt machine.ok env machine.act 0 calls disk

end Machine

/-- What reading an archive comes to: `getNextEntry` returns null or raises, or there is an entry
with what each `read` returns until the last returns -1 or raises. -/
inductive ZipInputStream
  | ended
  | raises
  | entry (name : Str) (reads : List Bytes) (broken : Bool) (rest : ZipInputStream)

def isDirectory (name : Str) : Bool := name.getLast? == some '/'

/-- In the order in which the maps are gone through. -/
structure WorkingDirectoryPreparer where
  files : List (Str × Bytes)
  zippedFiles : List (Str × Bytes)
  need_cleanup : Bool
  workingDir : Option Path

namespace WorkingDirectoryPreparer

def writeFile (workingDir : Path) (entry : Str × Bytes) : List Call :=
  [.getPath entry.1,.opens (workingDir.resolve (.of entry.1)),.write entry.2,.close]

def unzip (workingDir : Path) (dirname : Str) : ZipInputStream → List Call
  | .ended => []
  | .raises => [.unreadable]
  | .entry name reads broken rest =>
    let outputPath := (workingDir.resolve (.of dirname)).resolve (.of name)
    [.getPath dirname,.getPath name] ++
      (if isDirectory name then []
        else .mkdirs outputPath :: .opens outputPath :: reads.map .write ++ if broken then [] else [.close]) ++
      if broken then [.unreadable] else unzip workingDir dirname rest

/-- The calls of `prepare`, which swallows what they raise. -/
def prepare (machine : Machine) (zip : Bytes → ZipInputStream) (preparer : WorkingDirectoryPreparer) : List Call :=
  match preparer.workingDir with
  | none => [.null]
  | some path =>
    let workingDir := machine.toAbsolutePath path
    [.createDirectories workingDir,.createDirectories (workingDir.resolve (.of "models".toList)),
        .createDirectories (workingDir.resolve (.of "logs".toList))] ++
      preparer.files.flatMap (writeFile workingDir) ++
      preparer.zippedFiles.flatMap fun entry => unzip workingDir entry.1 (zip entry.2)

def clear (preparer : WorkingDirectoryPreparer) : WorkingDirectoryPreparer :=
  { preparer with
    files := []
    zippedFiles := [] }

def cleanup (preparer : WorkingDirectoryPreparer) : List Call :=
  if preparer.need_cleanup then preparer.workingDir.toList.map .delete else []

end WorkingDirectoryPreparer

/-- The constructor hands its directory to the preparer. -/
structure ProcessContainer where
  cwd : Option Path
  extraEnv : Option (List (Str × Str))
  stdOutFile : Option Path
  stdErrFile : Option Path
  workingDirectoryPreparer : Option WorkingDirectoryPreparer
  workingDir : ∀ preparer, workingDirectoryPreparer = some preparer → preparer.workingDir = cwd

structure Env where
  prepare : Nat → Outcome
  start : Nat → Outcome
  cleanup : Nat → Outcome
  isAlive : Bool

/-- The disk when the command is launched and at the end; `output` is none where `start` raises: null
is unboxed. -/
structure Started where
  container : ProcessContainer
  launched : Disk
  disk : Disk
  output : Option Bool

namespace ProcessContainer

def clear (container : ProcessContainer) : ProcessContainer :=
  { container with
    workingDirectoryPreparer := container.workingDirectoryPreparer.map WorkingDirectoryPreparer.clear
    workingDir := by
      intro preparer cleared
      obtain ⟨before,present,rfl⟩ := Option.map_eq_some_iff.mp cleared
      exact container.workingDir before present }

def logFiles (container : ProcessContainer) (cwd : Path) : List Path :=
  (container.stdOutFile.toList ++ container.stdErrFile.toList).map cwd.resolve

/-- What follows `prepare` in `start`. -/
def launch (container : ProcessContainer) : List Call :=
  match container.cwd with
  | none => [.null]
  | some cwd =>
    (container.logFiles cwd).flatMap (fun logFile => [.mkdirs logFile,.createNewFile logFile]) ++
      [.environment container.extraEnv] ++ (container.logFiles cwd).map .redirect ++ [.launch]

def start (machine : Machine) (zip : Bytes → ZipInputStream) (env : Env) (container : ProcessContainer) : Started :=
  match container.workingDirectoryPreparer with
  | none => ⟨container,.untouched,.untouched,none⟩
  | some preparer =>
    let prepared := machine.attempt env.prepare (preparer.prepare machine zip) .untouched
    let launched := machine.attempt env.start container.launch prepared.1
    let cleaned := machine.attempt env.cleanup preparer.cleanup launched.1
    ⟨container.clear,launched.1,cleaned.1,if launched.2 then some env.isAlive else none⟩

end ProcessContainer

namespace ZipInputStream

def readable : ZipInputStream → Bool
  | .ended => true
  | .raises => false
  | .entry _ _ broken rest => !broken && rest.readable

def contents : ZipInputStream → List (Str × Bytes)
  | .entry name reads _ rest => if isDirectory name then rest.contents else (name,reads.flatten) :: rest.contents
  | _ => []

end ZipInputStream

namespace WorkingDirectoryPreparer

def expected (machine : Machine) (zip : Bytes → ZipInputStream) (preparer : WorkingDirectoryPreparer) :
    List (Option Place × Bytes) :=
  preparer.workingDir.elim [] fun path =>
    let workingDir := machine.toAbsolutePath path
    (preparer.files.map fun entry => (machine.locate (workingDir.resolve (.of entry.1)),entry.2)) ++
      preparer.zippedFiles.flatMap fun archive => (zip archive.2).contents.map fun entry =>
        (machine.locate ((workingDir.resolve (.of archive.1)).resolve (.of entry.1)),entry.2)

def readable (zip : Bytes → ZipInputStream) (preparer : WorkingDirectoryPreparer) : Prop :=
  ∀ archive ∈ preparer.zippedFiles, (zip archive.2).readable = true

end WorkingDirectoryPreparer

def Touch.within (workingDir : Place) : Touch → Prop
  | .file place => workingDir <+: place
  | .directory place => workingDir <+: place ∨ place <+: workingDir

def ProcessContainer.within (container : ProcessContainer) (machine : Machine) (touch : Touch) : Prop :=
  ∃ workingDir, container.cwd.bind machine.locate = some workingDir ∧ touch.within workingDir

/-- A command that is launched has its files and archives: each of them has been written to its end, and
the disk has its content when the command is launched. Nothing is written outside of the working
directory. -/
structure Starts (machine : Machine) (zip : Bytes → ZipInputStream) (container : ProcessContainer) (after : Started) :
    Prop where
  complete : after.output ≠ none → ∀ preparer, container.workingDirectoryPreparer = some preparer →
    preparer.readable zip ∧ (preparer.expected machine zip).Subperm after.launched.written.complete ∧
      ∀ file ∈ preparer.expected machine zip, file.1.bind after.launched.written.contents = some file.2
  within : ∀ touch ∈ after.disk.touched, container.within machine touch

def Call.needed : Call → Bool
  | .close | .unreadable => true
  | _ => false

namespace Machine

def left (machine : Machine) (env : Nat → Outcome) (calls : List Call) : List Call := Attempt.left machine.ok env 0 calls

def made (machine : Machine) (env : Nat → Outcome) (calls : List Call) : List (Call × Outcome) :=
  Attempt.made machine.ok env 0 calls

end Machine

namespace ProcessContainer

/-- The places that the log files lead to; they are empty when the command is launched. -/
def logs (container : ProcessContainer) (machine : Machine) : List (Option Place × Bytes) :=
  container.cwd.elim [] fun cwd => (container.logFiles cwd).map fun logFile => (machine.locate logFile,[])

/-- Every name leads somewhere; files and entries whose names lead to one place have the same content,
and one that a log file leads to has none. -/
def apart (machine : Machine) (container : ProcessContainer) (files : List (Option Place × Bytes)) : Prop :=
  ∀ file ∈ files, file.1 ≠ none ∧ ∀ other ∈ files ++ container.logs machine, file.1 = other.1 → file.2 = other.2

/-- The command is not launched; or every call up to the end of the last file goes well, and no file
is written over. -/
def prepared (machine : Machine) (zip : Bytes → ZipInputStream) (env : Env) (container : ProcessContainer) : Prop :=
  ∀ preparer, container.workingDirectoryPreparer = some preparer → machine.left env.start container.launch = [] →
    (∀ call ∈ machine.left env.prepare (preparer.prepare machine zip), call.needed = false) ∧
      container.apart machine (preparer.expected machine zip)

def leads (container : ProcessContainer) (machine : Machine) (path : Path) : Prop :=
  ∀ place, machine.locate path = some place →
    ∃ workingDir, container.cwd.bind machine.locate = some workingDir ∧ workingDir <+: place

def onTheWay (container : ProcessContainer) (machine : Machine) (directory : Place) : Prop :=
  ∃ workingDir, container.cwd.bind machine.locate = some workingDir ∧ directory <+: workingDir

/-- Nothing is made, opened or removed by the call, but for directories on the way to the working
directory. -/
def idle (container : ProcessContainer) (machine : Machine) (path : Path) (call : Call) (answer : Outcome) : Prop :=
  match call with
  | .opens _ | .redirect _ => answer.raises = true
  | .createNewFile _ => answer.raises = true ∨ ∀ place, machine.locate path = some place → answer.changes place = false
  | .delete _ => ∀ place, machine.locate path = some place → answer.changes place = true → container.onTheWay machine place
  | _ => ∀ place, machine.locate path = some place → ∀ directory, directory <+: place →
      answer.changes directory = true → container.onTheWay machine directory

/-- Every call leads into the working directory by its name, or makes nothing. -/
def stays (container : ProcessContainer) (machine : Machine) (call : Call) (answer : Outcome) : Prop :=
  ∀ path, call.path = some path → container.leads machine path ∨ container.idle machine path call answer

end ProcessContainer

/-- The calls that the start gets to, up to the first that fails in each part. -/
def ProcessContainer.reached (machine : Machine) (zip : Bytes → ZipInputStream) (env : Env) (container : ProcessContainer) :
    List (Call × Outcome) :=
  container.workingDirectoryPreparer.elim [] fun preparer =>
    machine.made env.prepare (preparer.prepare machine zip) ++ machine.made env.start container.launch ++
      machine.made env.cleanup preparer.cleanup

section
variable (machine : Machine)

private theorem attempt_touched (env : Nat → Outcome) (calls : List Call) (disk : Disk) :
    (machine.attempt env calls disk).1.touched =
      disk.touched ++ (machine.made env calls).flatMap fun made => machine.touches made.1 made.2 := by
  rw [Machine.attempt,Attempt.attempt_eq]
  change (List.foldl _ disk (machine.made env calls)).touched = _
  induction machine.made env calls generalizing disk with
  | nil => rw [List.foldl_nil,List.flatMap_nil,List.append_nil]
  | cons first rest ih =>
    rw [List.foldl_cons,ih,List.flatMap_cons,← List.append_assoc]
    rfl

private theorem attempt_ended (env : Nat → Outcome) (calls : List Call) (disk : Disk) :
    (machine.attempt env calls disk).2 = (machine.left env calls).isEmpty := by
  rw [Machine.attempt,Attempt.attempt_eq]
  rfl

/-- What a call writes when it does not raise. -/
def Machine.ideal (machine : Machine) (written : Written) (call : Call) : Written :=
  machine.written written call ⟨false,0,fun _ => false⟩

def Written.kept (written : Written) : List (Option Place × Bytes) × (Place → Option Bytes) :=
  (written.complete,written.contents)

def Call.stores : Call → Bool
  | .opens _ | .write _ | .close | .redirect _ => true
  | _ => false

private theorem written_ok (written : Written) (call : Call) (answer : Outcome) (good : machine.ok call answer = true) :
    machine.written written call answer = machine.ideal written call := by
  cases call with
  | opens path | redirect path =>
    simp only [Machine.ok,Bool.and_eq_true,Bool.not_eq_true'] at good
    simp only [Machine.ideal,Machine.written,good.1]
  | write content =>
    simp only [Machine.ok,Bool.not_eq_true'] at good
    simp only [Machine.ideal,Machine.written,good,Bool.false_eq_true,if_false]
  | close =>
    simp only [Machine.ok,Bool.not_eq_true'] at good
    simp only [Machine.ideal,Machine.written,good]
  | _ => rfl

private theorem written_complete (written : Written) (call : Call) (answer : Outcome)
    (kept : call ≠ .close ∨ machine.ok call answer = false) : (machine.written written call answer).complete = written.complete := by
  cases call with
  | close =>
    obtain wrong | failed := kept
    · exact absurd rfl wrong
    · simp only [Machine.ok,Bool.not_eq_false'] at failed
      simp only [Machine.written,failed,if_true]
  | opens path | redirect path =>
    simp only [Machine.written]
    split <;> rfl
  | _ => rfl

private theorem written_kept {call : Call} (idle : call.stores = false) (written : Written) (answer : Outcome) :
    machine.written written call answer = written := by
  cases call <;> first | rfl | cases idle

private theorem ideal_complete (calls : List Call) (written : Written) :
    ∃ more, (calls.foldl machine.ideal written).complete = written.complete ++ more ∧ more.length = calls.count .close := by
  induction calls generalizing written with
  | nil => exact ⟨[],(List.append_nil _).symm,rfl⟩
  | cons call rest ih =>
    obtain ⟨more,same,length⟩ := ih (machine.ideal written call)
    rw [List.foldl_cons,same]
    by_cases closes : call = .close
    · rw [closes]
      refine ⟨written.stream :: more,?_,?_⟩
      · exact List.append_assoc _ [written.stream] more
      · rw [List.length_cons,List.count_cons_self,length]
    · refine ⟨more,?_,?_⟩
      · rw [Machine.ideal,written_complete machine written call _ (.inl closes)]
      · rw [List.count_cons_of_ne closes,length]

private theorem attempt_complete (env : Nat → Outcome) (calls : List Call) (disk : Disk) :
    ∃ done, calls = done ++ machine.left env calls ∧
      (machine.attempt env calls disk).1.written.complete = (done.foldl machine.ideal disk.written).complete := by
  rw [Machine.attempt,Attempt.attempt_eq]
  apply Attempt.fold_made machine.act Disk.written machine.ideal Written.complete
  · exact fun disk call answer good => written_ok machine disk.written call answer good
  · exact fun disk call _ answer bad => written_complete machine disk.written call answer (.inr bad)

private theorem attempt_kept (env : Nat → Outcome) {calls : List Call} (disk : Disk)
    (idle : ∀ call ∈ machine.left env calls, call.stores = false) :
    (machine.attempt env calls disk).1.written.kept = (calls.foldl machine.ideal disk.written).kept := by
  have stays (left : List Call) (idle : ∀ call ∈ left, call.stores = false) (written : Written) :
      left.foldl machine.ideal written = written := by
    induction left with
    | nil => rfl
    | cons call rest ih =>
      obtain ⟨first,others⟩ := List.forall_mem_cons.mp idle
      rw [List.foldl_cons,Machine.ideal,written_kept machine first,ih others]
  rw [Machine.attempt,Attempt.attempt_eq]
  have fails (disk : Disk) (call : Call) (member : call ∈ Attempt.left machine.ok env 0 calls) (answer : Outcome)
      (_ : machine.ok call answer = false) : (machine.act disk call answer).written.kept = disk.written.kept :=
    congrArg Written.kept (written_kept machine (idle call member) disk.written answer)
  obtain ⟨done,split,same⟩ := Attempt.fold_made machine.act Disk.written machine.ideal Written.kept
    (fun disk call answer good => written_ok machine disk.written call answer good) 0 calls disk fails
  rw [split,List.foldl_append]
  refine Eq.trans ?_ (congrArg Written.kept (stays _ idle _)).symm
  rw [← split]
  exact same

def storing (kept : List (Option Place × Bytes) × (Place → Option Bytes)) (files : List (Option Place × Bytes)) :
    List (Option Place × Bytes) × (Place → Option Bytes) :=
  (kept.1 ++ files,files.foldl put kept.2)

private theorem storing_append (kept : List (Option Place × Bytes) × (Place → Option Bytes))
    (files more : List (Option Place × Bytes)) : storing (storing kept files) more = storing kept (files ++ more) := by
  simp only [storing,List.append_assoc,List.foldl_append]

private theorem put_put (contents : Place → Option Bytes) (place : Option Place) (before after : Bytes) :
    put (put contents (place,before)) (place,after) = put contents (place,after) := by
  cases place with
  | none => rfl
  | some place => exact Function.update_idem _ _ _

private theorem writes_ideal (reads : List Bytes) (place : Option Place) (bytes : Bytes)
    (complete : List (Option Place × Bytes)) (contents : Place → Option Bytes) :
    (reads.map Call.write).foldl machine.ideal ⟨(place,bytes),complete,put contents (place,bytes)⟩ =
      ⟨(place,bytes ++ reads.flatten),complete,put contents (place,bytes ++ reads.flatten)⟩ := by
  induction reads generalizing bytes with
  | nil => rw [List.flatten_nil,List.append_nil]; rfl
  | cons first rest ih =>
    have wrote : machine.ideal ⟨(place,bytes),complete,put contents (place,bytes)⟩ (.write first) =
        ⟨(place,bytes ++ first),complete,put contents (place,bytes ++ first)⟩ := by
      rw [Machine.ideal,Machine.written]
      simp only [Bool.false_eq_true,if_false,put_put]
    rw [List.map_cons,List.foldl_cons,wrote,ih,List.flatten_cons,← List.append_assoc]

private theorem file_ideal (path : Path) (reads : List Bytes) (written : Written) :
    ((Call.opens path :: reads.map Call.write ++ [Call.close]).foldl machine.ideal written).kept =
      storing written.kept [(machine.locate path,reads.flatten)] := by
  rw [List.foldl_append,List.foldl_cons]
  change (List.foldl machine.ideal ((reads.map Call.write).foldl machine.ideal
    ⟨(machine.locate path,[]),written.complete,put written.contents (machine.locate path,[])⟩) [.close]).kept = _
  rw [writes_ideal]
  rfl

private theorem files_ideal (workingDir : Path) (files : List (Str × Bytes)) (written : Written) :
    ((files.flatMap (WorkingDirectoryPreparer.writeFile workingDir)).foldl machine.ideal written).kept =
      storing written.kept (files.map fun entry => (machine.locate (workingDir.resolve (.of entry.1)),entry.2)) := by
  induction files generalizing written with
  | nil => exact Prod.ext (List.append_nil _).symm rfl
  | cons entry rest ih =>
    have first := file_ideal machine (workingDir.resolve (.of entry.1)) [entry.2] written
    rw [List.flatten_singleton] at first
    rw [List.flatMap_cons,List.foldl_append,ih]
    refine (congrArg (storing · _) ?_).trans (storing_append written.kept [_] _)
    exact first

private theorem unzip_ideal (workingDir : Path) (dirname : Str) {zip : ZipInputStream} (readable : zip.readable = true)
    (written : Written) :
    ((WorkingDirectoryPreparer.unzip workingDir dirname zip).foldl machine.ideal written).kept =
      storing written.kept (zip.contents.map fun entry =>
        (machine.locate ((workingDir.resolve (.of dirname)).resolve (.of entry.1)),entry.2)) := by
  induction zip generalizing written with
  | ended => exact Prod.ext (List.append_nil _).symm rfl
  | raises => cases readable
  | entry name reads broken rest ih =>
    simp only [ZipInputStream.readable,Bool.and_eq_true,Bool.not_eq_true'] at readable
    obtain ⟨rfl,readable⟩ := readable
    simp only [WorkingDirectoryPreparer.unzip,ZipInputStream.contents,Bool.false_eq_true,if_false,List.foldl_append]
    rw [ih readable]
    split
    · rfl
    · refine (congrArg (storing · _) ?_).trans (storing_append written.kept [_] _)
      rw [← List.foldl_append]
      exact file_ideal machine ((workingDir.resolve (.of dirname)).resolve (.of name)) reads written

private theorem archives_ideal (zip : Bytes → ZipInputStream) (workingDir : Path) (archives : List (Str × Bytes))
    (readable : ∀ archive ∈ archives, (zip archive.2).readable = true) (written : Written) :
    ((archives.flatMap fun entry => WorkingDirectoryPreparer.unzip workingDir entry.1 (zip entry.2)).foldl
        machine.ideal written).kept =
      storing written.kept (archives.flatMap fun archive => (zip archive.2).contents.map fun entry =>
        (machine.locate ((workingDir.resolve (.of archive.1)).resolve (.of entry.1)),entry.2)) := by
  induction archives generalizing written with
  | nil => exact Prod.ext (List.append_nil _).symm rfl
  | cons archive rest ih =>
    rw [List.flatMap_cons,List.foldl_append,ih fun other member => readable other (List.mem_cons_of_mem _ member),
      unzip_ideal machine workingDir archive.1 (readable archive List.mem_cons_self),List.flatMap_cons,storing_append]

private theorem prepare_ideal (zip : Bytes → ZipInputStream) (preparer : WorkingDirectoryPreparer)
    (readable : preparer.readable zip) :
    ((preparer.prepare machine zip).foldl machine.ideal Disk.untouched.written).kept =
      storing Disk.untouched.written.kept (preparer.expected machine zip) := by
  unfold WorkingDirectoryPreparer.prepare WorkingDirectoryPreparer.expected
  cases preparer.workingDir with
  | none => rfl
  | some path =>
    simp only [List.foldl_append]
    rw [archives_ideal machine zip _ _ readable,files_ideal]
    exact storing_append _ _ _

private theorem unzip_unreadable (workingDir : Path) (dirname : Str) (zip : ZipInputStream) :
    Call.unreadable ∈ WorkingDirectoryPreparer.unzip workingDir dirname zip ↔ zip.readable = false := by
  induction zip with
  | ended => simp [WorkingDirectoryPreparer.unzip,ZipInputStream.readable]
  | raises => simp [WorkingDirectoryPreparer.unzip,ZipInputStream.readable]
  | entry name reads broken rest ih =>
    cases broken with
    | true => simp [WorkingDirectoryPreparer.unzip,ZipInputStream.readable]
    | false =>
      simp only [WorkingDirectoryPreparer.unzip,ZipInputStream.readable,Bool.not_false,Bool.true_and]
      rw [← ih]
      split <;> simp

private theorem prepare_unreadable (zip : Bytes → ZipInputStream) {preparer : WorkingDirectoryPreparer} {path : Path}
    (there : preparer.workingDir = some path) :
    Call.unreadable ∈ preparer.prepare machine zip ↔ ¬ preparer.readable zip := by
  simp only [WorkingDirectoryPreparer.prepare,there,List.mem_append,List.mem_flatMap,WorkingDirectoryPreparer.writeFile,
    WorkingDirectoryPreparer.readable,unzip_unreadable]
  simp

private theorem prepare_needed (zip : Bytes → ZipInputStream) (env : Nat → Outcome) {preparer : WorkingDirectoryPreparer}
    {path : Path} (there : preparer.workingDir = some path) :
    (∀ call ∈ machine.left env (preparer.prepare machine zip), call.needed = false) ↔
      preparer.readable zip ∧ (preparer.expected machine zip).Subperm
        (machine.attempt env (preparer.prepare machine zip) .untouched).1.written.complete := by
  obtain ⟨done,split,complete⟩ := attempt_complete machine env (preparer.prepare machine zip) .untouched
  obtain ⟨now,grown,closed⟩ := ideal_complete machine done Disk.untouched.written
  obtain ⟨later,ended,unclosed⟩ := ideal_complete machine (machine.left env (preparer.prepare machine zip))
    (done.foldl machine.ideal Disk.untouched.written)
  rw [← List.foldl_append,← split] at ended
  have whole (readable : preparer.readable zip) :
      preparer.expected machine zip = (done.foldl machine.ideal Disk.untouched.written).complete ++ later :=
    (congrArg Prod.fst (prepare_ideal machine zip preparer readable)).symm.trans ended
  constructor
  · intro needless
    have readable : preparer.readable zip := by
      by_contra unreadable
      have stuck : Call.unreadable ∈ machine.left env (preparer.prepare machine zip) :=
        Attempt.mem_left ((prepare_unreadable machine zip there).mpr unreadable) fun _ => rfl
      cases needless _ stuck
    have none : (machine.left env (preparer.prepare machine zip)).count .close = 0 := by
      rw [List.count_eq_zero]
      intro member
      cases needless _ member
    rw [none] at unclosed
    have all := whole readable
    rw [List.eq_nil_of_length_eq_zero unclosed,List.append_nil] at all
    rw [complete,← all]
    exact ⟨readable,List.Subperm.refl _⟩
  · rintro ⟨readable,all⟩ call member
    rw [complete,whole readable] at all
    have short := all.length_le
    rw [List.length_append,unclosed] at short
    cases call with
    | close =>
      have some := List.count_pos_iff.mpr member
      omega
    | unreadable =>
      have stuck := (Attempt.left_suffix 0 (preparer.prepare machine zip)).subset member
      exact absurd readable ((prepare_unreadable machine zip there).mp stuck)
    | _ => rfl

def Settled (calls : List Call) : Prop :=
  ∀ last, last <:+ calls → (∀ call ∈ last, call.needed = false) → ∀ call ∈ last, call.stores = false

private theorem settled_idle {calls : List Call} (idle : ∀ call ∈ calls, call.stores = false) : Settled calls :=
  fun _ suffix _ call member => idle call (suffix.subset member)

private theorem settled_needed (calls : List Call) {call : Call} (needed : call.needed = true) : Settled (calls ++ [call]) := by
  intro last suffix needless
  obtain rfl | ⟨front,rfl,-⟩ := List.suffix_concat_iff.mp suffix
  · exact fun _ member => absurd member List.not_mem_nil
  · have useless := needless call (List.mem_append_right _ (List.mem_singleton_self _))
    rw [needed] at useless
    cases useless

private theorem settled_append {first second : List Call} (left : Settled first) (right : Settled second) :
    Settled (first ++ second) := by
  intro last suffix needless
  obtain ⟨before,split⟩ := suffix
  obtain ⟨front,rfl,rfl⟩ | ⟨front,rfl,rfl⟩ := List.append_eq_append_iff.mp split
  · have within : front <:+ before ++ front := List.suffix_append before front
    intro call member
    rcases List.mem_append.mp member with before | behind
    · exact left front within (fun call inside => needless call (List.mem_append_left _ inside)) call before
    · exact right second (List.suffix_refl _) (fun call inside => needless call (List.mem_append_right _ inside)) call behind
  · exact right last (List.suffix_append front last) needless

private theorem settled_flatMap {ι : Type} (calls : ι → List Call) (items : List ι) (settled : ∀ item ∈ items, Settled (calls item)) :
    Settled (items.flatMap calls) := by
  induction items with
  | nil => exact settled_idle fun _ member => absurd member List.not_mem_nil
  | cons item rest ih =>
    obtain ⟨first,others⟩ := List.forall_mem_cons.mp settled
    rw [List.flatMap_cons]
    exact settled_append first (ih others)

private theorem unzip_settled (workingDir : Path) (dirname : Str) (zip : ZipInputStream) :
    Settled (WorkingDirectoryPreparer.unzip workingDir dirname zip) := by
  induction zip with
  | ended => exact settled_idle fun _ member => absurd member List.not_mem_nil
  | raises => exact settled_needed [] rfl
  | entry name reads broken rest ih =>
    rw [WorkingDirectoryPreparer.unzip]
    cases broken with
    | true => exact settled_needed _ rfl
    | false =>
      refine settled_append (settled_append (settled_idle (by simp [Call.stores])) ?_) ih
      split
      · exact settled_idle fun _ member => absurd member List.not_mem_nil
      · exact settled_needed (.mkdirs _ :: .opens _ :: reads.map .write) rfl

private theorem prepare_settled (zip : Bytes → ZipInputStream) (preparer : WorkingDirectoryPreparer) :
    Settled (preparer.prepare machine zip) := by
  unfold WorkingDirectoryPreparer.prepare
  cases preparer.workingDir with
  | none => exact settled_idle (by simp [Call.stores])
  | some path =>
    refine settled_append (settled_append (settled_idle (by simp [Call.stores])) ?_) ?_
    · exact settled_flatMap _ _ fun entry _ => settled_needed [.getPath _,.opens _,.write _] rfl
    · exact settled_flatMap _ _ fun archive _ => unzip_settled _ archive.1 _

private theorem launch_ideal (container : ProcessContainer) (written : Written) :
    (container.launch.foldl machine.ideal written).complete = written.complete ∧
      (container.launch.foldl machine.ideal written).contents = (container.logs machine).foldl put written.contents := by
  unfold ProcessContainer.launch ProcessContainer.logs
  cases container.cwd with
  | none => exact ⟨rfl,rfl⟩
  | some cwd =>
    have makes (logFiles : List Path) : (logFiles.flatMap fun logFile => [Call.mkdirs logFile,.createNewFile logFile]).foldl
        machine.ideal written = written := by
      induction logFiles with
      | nil => rfl
      | cons logFile rest ih => exact ih
    have redirects (logFiles : List Path) (written : Written) :
        ((logFiles.map Call.redirect).foldl machine.ideal written).complete = written.complete ∧
          ((logFiles.map Call.redirect).foldl machine.ideal written).contents =
            (logFiles.map fun logFile => (machine.locate logFile,([] : Bytes))).foldl put written.contents := by
      induction logFiles generalizing written with
      | nil => exact ⟨rfl,rfl⟩
      | cons logFile rest ih => exact ih _
    simp only [List.foldl_append,makes]
    exact redirects (container.logFiles cwd) written

private theorem attempt_ended_kept (env : Nat → Outcome) {calls : List Call} (disk : Disk)
    (ended : machine.left env calls = []) :
    (machine.attempt env calls disk).1.written.kept = (calls.foldl machine.ideal disk.written).kept :=
  attempt_kept machine env disk fun call member => by rw [ended] at member; cases member

private theorem start_touched (zip : Bytes → ZipInputStream) (env : Env) (container : ProcessContainer) :
    (container.start machine zip env).disk.touched =
      (container.reached machine zip env).flatMap fun made => machine.touches made.1 made.2 := by
  unfold ProcessContainer.start ProcessContainer.reached
  cases container.workingDirectoryPreparer with
  | none => rfl
  | some preparer =>
    simp only [attempt_touched,Option.elim_some,List.flatMap_append]
    rfl

private theorem start_launched (zip : Bytes → ZipInputStream) (env : Env) {container : ProcessContainer}
    {preparer : WorkingDirectoryPreparer} (there : container.workingDirectoryPreparer = some preparer)
    (launched : machine.left env.start container.launch = []) :
    (container.start machine zip env).launched.written.complete =
        (machine.attempt env.prepare (preparer.prepare machine zip) .untouched).1.written.complete ∧
      (container.start machine zip env).launched.written.contents = (container.logs machine).foldl put
        (machine.attempt env.prepare (preparer.prepare machine zip) .untouched).1.written.contents := by
  have kept := attempt_ended_kept machine env.start
    (machine.attempt env.prepare (preparer.prepare machine zip) .untouched).1 launched
  obtain ⟨complete,contents⟩ := launch_ideal machine container
    (machine.attempt env.prepare (preparer.prepare machine zip) .untouched).1.written
  simp only [ProcessContainer.start,there]
  exact ⟨(congrArg Prod.fst kept).trans complete,(congrArg Prod.snd kept).trans contents⟩

private theorem start_output (zip : Bytes → ZipInputStream) (env : Env) {container : ProcessContainer}
    {preparer : WorkingDirectoryPreparer} (there : container.workingDirectoryPreparer = some preparer) :
    (container.start machine zip env).output ≠ none ↔ machine.left env.start container.launch = [] := by
  simp only [ProcessContainer.start,there]
  rw [attempt_ended]
  simp

private theorem cwd_of_launched {env : Nat → Outcome} {container : ProcessContainer}
    (launched : machine.left env container.launch = []) : ∃ path, container.cwd = some path := by
  cases cwd : container.cwd with
  | none =>
    simp only [ProcessContainer.launch,cwd] at launched
    cases launched
  | some path => exact ⟨path,rfl⟩

end

private theorem stored_same {files : List (Option Place × Bytes)} {place : Place} {content : Bytes}
    (contents : Place → Option Bytes) (there : ∃ file ∈ files, file.1 = some place)
    (same : ∀ file ∈ files, file.1 = some place → file.2 = content) : files.foldl put contents place = some content := by
  induction files using List.reverseRecOn with
  | nil =>
    obtain ⟨_,member,_⟩ := there
    cases member
  | append_singleton files last ih =>
    rw [List.foldl_append,List.foldl_cons,List.foldl_nil]
    by_cases here : last.1 = some place
    · rw [put,here,Option.elim_some,Function.update_self,
        same last (List.mem_append_right _ (List.mem_singleton_self _)) here]
    · have still : put (files.foldl put contents) last place = files.foldl put contents place := by
        rw [put]
        cases elsewhere : last.1 with
        | none => rfl
        | some other =>
          refine Function.update_of_ne ?_ _ _
          rintro rfl
          exact here elsewhere
      rw [still]
      refine ih ?_ fun file member => same file (List.mem_append_left _ member)
      obtain ⟨file,member,at_place⟩ := there
      rcases List.mem_append.mp member with before | is_last
      · exact ⟨file,before,at_place⟩
      · rw [List.mem_singleton.mp is_last] at at_place
        exact absurd at_place here

section
variable (machine : Machine) (zip : Bytes → ZipInputStream) (env : Env) (container : ProcessContainer)

private theorem apart_iff (files : List (Option Place × Bytes)) : container.apart machine files ↔
    ∀ file ∈ files, file.1.bind ((files ++ container.logs machine).foldl put fun _ => none) = some file.2 := by
  have empty : ∀ log ∈ container.logs machine, log.2 = [] := by
    unfold ProcessContainer.logs
    cases container.cwd with
    | none => exact fun _ member => absurd member List.not_mem_nil
    | some cwd => exact List.forall_mem_map.mpr fun _ _ => rfl
  constructor
  · intro apart file member
    obtain ⟨leads,alike⟩ := apart file member
    obtain ⟨place,located⟩ := Option.ne_none_iff_exists'.mp leads
    rw [located,Option.bind_some]
    refine stored_same _ ⟨file,List.mem_append_left _ member,located⟩ fun other inside same => ?_
    exact (alike other inside (located.trans same.symm)).symm
  · intro present file member
    have found := present file member
    cases located : file.1 with
    | none =>
      rw [located] at found
      cases found
    | some place =>
      rw [located,Option.bind_some] at found
      refine ⟨by simp,fun other inside same => ?_⟩
      rcases List.mem_append.mp inside with another | log
      · have again := present other another
        rw [← same,Option.bind_some,found] at again
        exact Option.some.inj again
      · rw [List.foldl_append,stored_same _ ⟨other,log,same.symm⟩ fun other inside _ => empty other inside] at found
        rw [empty other log,← Option.some.inj found]

theorem prepared_iff : container.prepared machine zip env ↔ ((container.start machine zip env).output ≠ none →
    ∀ preparer, container.workingDirectoryPreparer = some preparer → preparer.readable zip ∧
      (preparer.expected machine zip).Subperm (container.start machine zip env).launched.written.complete ∧
      ∀ file ∈ preparer.expected machine zip,
        file.1.bind (container.start machine zip env).launched.written.contents = some file.2) := by
  have promised (preparer : WorkingDirectoryPreparer) (there : container.workingDirectoryPreparer = some preparer)
      (launched : machine.left env.start container.launch = []) :
      ((∀ call ∈ machine.left env.prepare (preparer.prepare machine zip), call.needed = false) ∧
          container.apart machine (preparer.expected machine zip)) ↔
        preparer.readable zip ∧
          (preparer.expected machine zip).Subperm (container.start machine zip env).launched.written.complete ∧
          ∀ file ∈ preparer.expected machine zip,
            file.1.bind (container.start machine zip env).launched.written.contents = some file.2 := by
    obtain ⟨path,cwd⟩ := cwd_of_launched machine launched
    obtain ⟨complete,contents⟩ := start_launched machine zip env there launched
    rw [complete,contents,← and_assoc,← prepare_needed machine zip env.prepare ((container.workingDir preparer there).trans cwd)]
    refine and_congr_right fun needless => ?_
    have readable := ((prepare_needed machine zip env.prepare ((container.workingDir preparer there).trans cwd)).mp needless).1
    have idle := prepare_settled machine zip preparer _ (Attempt.left_suffix 0 _) needless
    have stored := (attempt_kept machine env.prepare .untouched idle).trans (prepare_ideal machine zip preparer readable)
    have contents := congrArg Prod.snd stored
    change (machine.attempt _ _ _).1.written.contents = _ at contents
    rw [contents,apart_iff,List.foldl_append]
    rfl
  constructor
  · intro prepared output preparer there
    have launched := (start_output machine zip env there).mp output
    exact (promised preparer there launched).mp (prepared preparer there launched)
  · intro complete preparer there launched
    rw [promised preparer there launched]
    exact complete ((start_output machine zip env there).mpr launched) preparer there

private theorem directories_iff (path : Path) (answer : Outcome) :
    (∀ touch ∈ (((machine.locate path).elim [] List.inits).filter answer.changes).map Touch.directory,
        container.within machine touch) ↔
      container.leads machine path ∨ ∀ place, machine.locate path = some place → ∀ directory, directory <+: place →
        answer.changes directory = true → container.onTheWay machine directory := by
  cases located : machine.locate path with
  | none => simp [ProcessContainer.leads,located]
  | some place =>
    simp only [Option.elim_some,List.forall_mem_map,List.mem_filter,List.mem_inits,and_imp,ProcessContainer.leads,located,
      Option.some.injEq,forall_eq']
    constructor
    · intro within
      by_cases leads : ∃ workingDir, container.cwd.bind machine.locate = some workingDir ∧ workingDir <+: place
      · exact .inl leads
      · refine .inr fun directory initial new => ?_
        obtain ⟨workingDir,known,inside | above⟩ := within directory initial new
        · exact absurd ⟨workingDir,known,inside.trans initial⟩ leads
        · exact ⟨workingDir,known,above⟩
    · rintro (⟨workingDir,known,leads⟩ | idle) directory initial new
      · exact ⟨workingDir,known,List.prefix_or_prefix_of_prefix leads initial⟩
      · obtain ⟨workingDir,known,above⟩ := idle directory initial new
        exact ⟨workingDir,known,.inr above⟩

private theorem file_iff (path : Path) : (∀ touch ∈ (machine.locate path).toList.map Touch.file,
    container.within machine touch) ↔ container.leads machine path := by
  cases located : machine.locate path with
  | none => simp [ProcessContainer.leads,located]
  | some place =>
    simp only [Option.toList_some,List.map_cons,List.map_nil,List.forall_mem_singleton,ProcessContainer.leads,located,
      Option.some.injEq,forall_eq']
    rfl

private theorem stays_iff (call : Call) (answer : Outcome) : (∀ touch ∈ machine.touches call answer, container.within machine touch) ↔
    container.stays machine call answer := by
  unfold ProcessContainer.stays
  cases call with
  | opens path | redirect path =>
    simp only [Machine.touches,Call.path,ProcessContainer.idle,Option.some.injEq,forall_eq']
    cases answer.raises with
    | true => simp
    | false => simpa using file_iff machine container path
  | createNewFile path =>
    simp only [Machine.touches,Call.path,ProcessContainer.idle,Option.some.injEq,forall_eq']
    cases answer.raises with
    | true => simp
    | false =>
      rw [if_neg Bool.false_ne_true,← file_iff]
      cases machine.locate path with
      | none => simp
      | some place => cases new : answer.changes place <;> simp [new]
  | createDirectories path =>
    simp only [Call.path,Option.some.injEq,forall_eq']
    exact directories_iff machine container path answer
  | mkdirs path =>
    simp only [Call.path]
    cases parent : path.getParentFile with
    | none => simp [Machine.touches,parent]
    | some above =>
      simp only [Machine.touches,parent,Option.bind_some,Option.some.injEq,forall_eq']
      exact directories_iff machine container above answer
  | delete path =>
    simp only [Machine.touches,Call.path,ProcessContainer.idle,ProcessContainer.leads,Option.some.injEq,forall_eq']
    cases machine.locate path with
    | none => simp
    | some place =>
      cases gone : answer.changes place with
      | false => simp [gone]
      | true =>
        simp only [Option.toList_some,List.filter_cons,gone,if_true,List.filter_nil,List.map_cons,List.map_nil,
          List.forall_mem_singleton,Option.some.injEq,forall_eq',forall_const]
        constructor
        · rintro ⟨workingDir,known,inside | above⟩
          · exact .inl ⟨workingDir,known,inside⟩
          · exact .inr ⟨workingDir,known,above⟩
        · rintro (⟨workingDir,known,inside⟩ | ⟨workingDir,known,above⟩)
          · exact ⟨workingDir,known,.inl inside⟩
          · exact ⟨workingDir,known,.inr above⟩
  | _ => simp [Machine.touches,Call.path]

theorem within_iff : (∀ touch ∈ (container.start machine zip env).disk.touched, container.within machine touch) ↔
    ∀ made ∈ container.reached machine zip env, container.stays machine made.1 made.2 := by
  simp only [start_touched,← stays_iff]
  constructor
  · intro within made member touch touched
    exact within touch (List.mem_flatMap.mpr ⟨made,member,touched⟩)
  · intro within touch touched
    obtain ⟨made,member,inside⟩ := List.mem_flatMap.mp touched
    exact within made member touch inside

end

/-- A disk without links; a container with a file above its directory and one in a
directory that is not there. -/
def plainMachine : Machine := ⟨["srv".toList],fun _ => none⟩

def escaping : ProcessContainer where
  cwd := some (.of "/work/c1".toList)
  extraEnv := some []
  stdOutFile := none
  stdErrFile := none
  workingDirectoryPreparer := some ⟨[("../a".toList,[1]),("data/part".toList,[2])],[],true,some (.of "/work/c1".toList)⟩
  workingDir := by simp

/-- The second file, call 8 of the preparation, cannot be opened. -/
def missingDirectory : Env where
  prepare n := ⟨n == 8,0,fun _ => false⟩
  start _ := ⟨false,0,fun _ => false⟩
  cleanup _ := ⟨false,0,fun _ => false⟩
  isAlive := true

end Eggroll.WorkingDirectory
