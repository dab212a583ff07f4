import Eggroll.WorkingDirectory

/-! Names of files and entries that stay in the working directory, so that only the failures of a
start matter. -/
namespace Eggroll.WorkingDirectory
open Library

/-- A relative name without `..`. -/
def Path.plain (path : Path) : Prop := path.absolute = false ∧ path.names ≠ [] ∧ Str.dotdot ∉ path.names

instance (path : Path) : Decidable path.plain :=
  inferInstanceAs (Decidable (path.absolute = false ∧ path.names ≠ [] ∧ Str.dotdot ∉ path.names))

/-- From a directory on by names without `..`. -/
def Machine.beneath (machine : Machine) (dir path : Path) : Prop :=
  ∃ names, Str.dotdot ∉ names ∧ (machine.toAbsolutePath path).names = (machine.toAbsolutePath dir).names ++ names

section
variable {machine : Machine} {dir path : Path} {place : Place}

private theorem Path.resolve_assoc (dir first second : Path) :
    (dir.resolve first).resolve second = dir.resolve (first.resolve second) := by
  unfold Path.resolve
  by_cases second.absolute = true <;> by_cases first.absolute = true <;> simp [*]

private theorem beneath_self : machine.beneath dir dir := ⟨[],List.not_mem_nil,(List.append_nil _).symm⟩

private theorem Path.plain.beneath (plain : path.plain) : machine.beneath dir (dir.resolve path) := by
  refine ⟨path.names,plain.2.2,?_⟩
  unfold Path.resolve Machine.toAbsolutePath
  rw [plain.1]
  cases dir.absolute <;> simp

theorem Path.plain.parent (plain : path.plain) {parent : Path} (above : (dir.resolve path).getParentFile = some parent) :
    machine.beneath dir parent := by
  refine ⟨path.names.dropLast,fun member => plain.2.2 (List.dropLast_subset _ member),?_⟩
  unfold Path.getParentFile at above
  split at above
  · cases above
  · cases above
    unfold Path.resolve Machine.toAbsolutePath
    rw [plain.1]
    cases dir.absolute <;> simp [List.dropLast_append_of_ne_nil plain.2.1]

private theorem locate_beneath (there : machine.locate dir = some place) (unlinked : ∀ below, machine.links (place ++ below) = none)
    (beneath : machine.beneath dir path) : ∃ below, machine.locate path = some (place ++ below) := by
  obtain ⟨names,plain,same⟩ := beneath
  refine ⟨names.filter fun name => name ≠ [] ∧ name ≠ Str.dot,?_⟩
  rw [Machine.locate,same]
  apply walk_append _ _ there
  · intro other
    unfold Machine.node
    split <;> simp
  · intro jump
    apply walkWith_down jump _ plain
    intro below
    simp only [Machine.node,unlinked]

private theorem unzip_paths {dirname : Str} {zip : ZipInputStream} {call : Call}
    (member : call ∈ WorkingDirectoryPreparer.unzip dir dirname zip) (known : call.path = some path) :
    ∃ entry ∈ zip.contents, path = dir.resolve ((Path.of dirname).resolve (.of entry.1)) ∨
      (dir.resolve ((Path.of dirname).resolve (.of entry.1))).getParentFile = some path := by
  induction zip with
  | ended => cases member
  | raises =>
    obtain rfl := List.mem_singleton.mp member
    cases known
  | entry name reads broken rest ih =>
    simp only [WorkingDirectoryPreparer.unzip,List.mem_append,Path.resolve_assoc] at member
    simp only [ZipInputStream.contents]
    obtain (named | inside) | later := member
    · obtain rfl | rfl : call = .getPath dirname ∨ call = .getPath name := by simpa using named
      · cases known
      · cases known
    · split at inside
      · cases inside
      · rename_i file
        rw [if_neg file]
        refine ⟨(name,reads.flatten),List.mem_cons_self,?_⟩
        obtain rfl | rfl | (⟨content,-,rfl⟩ | closes) : call = .mkdirs (dir.resolve ((Path.of dirname).resolve (.of name))) ∨
            call = .opens (dir.resolve ((Path.of dirname).resolve (.of name))) ∨
              ((∃ content ∈ reads, Call.write content = call) ∨ call ∈ if broken = true then [] else [.close]) := by
          simpa using inside
        · exact .inr known
        · cases known
          exact .inl rfl
        · cases known
        · split at closes
          · cases closes
          · obtain rfl := List.mem_singleton.mp closes
            cases known
    · split at later
      · obtain rfl := List.mem_singleton.mp later
        cases known
      · obtain ⟨entry,present,leads⟩ := ih later
        refine ⟨entry,?_,leads⟩
        split
        · exact present
        · exact List.mem_cons_of_mem _ present

private theorem unzip_beneath {dirname : Str} {zip : ZipInputStream}
    (plain : ∀ entry ∈ zip.contents, ((Path.of dirname).resolve (.of entry.1)).plain) {call : Call}
    (member : call ∈ WorkingDirectoryPreparer.unzip dir dirname zip) (known : call.path = some path) :
    machine.beneath dir path := by
  obtain ⟨entry,present,rfl | parent⟩ := unzip_paths member known
  · exact (plain entry present).beneath
  · exact (plain entry present).parent parent

private theorem prepare_beneath {zip : Bytes → ZipInputStream} {preparer : WorkingDirectoryPreparer}
    (there : preparer.workingDir = some dir) (files : ∀ entry ∈ preparer.files, (Path.of entry.1).plain)
    (archives : ∀ archive ∈ preparer.zippedFiles, ∀ entry ∈ (zip archive.2).contents,
      ((Path.of archive.1).resolve (.of entry.1)).plain)
    {call : Call} (member : call ∈ preparer.prepare machine zip) (known : call.path = some path) :
    machine.beneath (machine.toAbsolutePath dir) path := by
  simp only [WorkingDirectoryPreparer.prepare,there,List.mem_append,List.mem_flatMap] at member
  obtain (made | ⟨entry,present,written⟩) | ⟨archive,present,unzipped⟩ := member
  · obtain rfl | rfl | rfl : call = .createDirectories (machine.toAbsolutePath dir) ∨
        call = .createDirectories ((machine.toAbsolutePath dir).resolve (.of "models".toList)) ∨
          call = .createDirectories ((machine.toAbsolutePath dir).resolve (.of "logs".toList)) := by simpa using made
    · cases known
      exact beneath_self
    · cases known
      exact Path.plain.beneath (by decide +kernel)
    · cases known
      exact Path.plain.beneath (by decide +kernel)
  · obtain rfl | rfl | rfl | rfl : call = .getPath entry.1 ∨
        call = .opens ((machine.toAbsolutePath dir).resolve (.of entry.1)) ∨ call = .write entry.2 ∨ call = .close := by
      simpa [WorkingDirectoryPreparer.writeFile] using written
    · cases known
    · cases known
      exact (files entry present).beneath
    · cases known
    · cases known
  · exact unzip_beneath (archives archive present) unzipped known

private theorem launch_beneath {container : ProcessContainer} (there : container.cwd = some dir)
    (logs : ∀ logFile ∈ container.stdOutFile.toList ++ container.stdErrFile.toList,
      ∃ file : Path, file.plain ∧ dir.resolve logFile = dir.resolve file)
    {call : Call} (member : call ∈ container.launch) (known : call.path = some path) : machine.beneath dir path := by
  simp only [ProcessContainer.launch,ProcessContainer.logFiles,there,List.mem_append,List.mem_flatMap,List.mem_map,List.mem_singleton] at member
  obtain ((⟨_,⟨logFile,present,rfl⟩,makes⟩ | rfl) | ⟨_,⟨logFile,present,rfl⟩,rfl⟩) | rfl := member
  · obtain ⟨file,plain,same⟩ := logs logFile (List.mem_append.mpr present)
    obtain rfl | rfl : call = .mkdirs (dir.resolve logFile) ∨ call = .createNewFile (dir.resolve logFile) := by
      simpa using makes
    · rw [same] at known
      exact plain.parent known
    · cases known
      rw [same]
      exact plain.beneath
  · cases known
  · obtain ⟨file,plain,same⟩ := logs logFile (List.mem_append.mpr present)
    cases known
    rw [same]
    exact plain.beneath
  · cases known

private theorem cleanup_beneath {preparer : WorkingDirectoryPreparer} (there : preparer.workingDir = some dir) {call : Call}
    (member : call ∈ preparer.cleanup) (known : call.path = some path) : machine.beneath dir path := by
  simp only [WorkingDirectoryPreparer.cleanup,there] at member
  split at member
  · obtain rfl := List.mem_singleton.mp member
    cases known
    exact beneath_self
  · cases member

/-- Plain names stay in a directory without links: then only the failures, and files that are written
over, matter. -/
theorem plain_within {zip : Bytes → ZipInputStream} {env : Env} {container : ProcessContainer}
    (there : container.cwd = some dir) (located : machine.locate dir = some place)
    (unlinked : ∀ below, machine.links (place ++ below) = none)
    (logs : ∀ logFile ∈ container.stdOutFile.toList ++ container.stdErrFile.toList,
      ∃ file : Path, file.plain ∧ dir.resolve logFile = dir.resolve file)
    (files : ∀ preparer, container.workingDirectoryPreparer = some preparer →
      (∀ entry ∈ preparer.files, (Path.of entry.1).plain) ∧
        ∀ archive ∈ preparer.zippedFiles, ∀ entry ∈ (zip archive.2).contents,
          ((Path.of archive.1).resolve (.of entry.1)).plain) :
    Starts machine zip container (container.start machine zip env) ↔ container.prepared machine zip env := by
  rw [prepared_iff]
  refine ⟨Starts.complete,fun complete => ⟨complete,(within_iff machine zip env container).mpr ?_⟩⟩
  have leads {base path : Path} (start : machine.locate base = some place) (beneath : machine.beneath base path) :
      container.leads machine path := by
    intro other found
    obtain ⟨below,inside⟩ := locate_beneath start unlinked beneath
    rw [inside] at found
    cases found
    exact ⟨place,by rw [there]; exact located,List.prefix_append place below⟩
  intro made member path known
  unfold ProcessContainer.reached at member
  cases present : container.workingDirectoryPreparer with
  | none =>
    rw [present] at member
    cases member
  | some preparer =>
    have workingDir := (container.workingDir preparer present).trans there
    obtain ⟨plainFiles,plainEntries⟩ := files preparer present
    simp only [present,Option.elim_some,List.mem_append] at member
    obtain (prepares | launches) | cleans := member
    · have absolute : machine.locate (machine.toAbsolutePath dir) = some place := by
        rw [← located]
        simp only [Machine.locate,Machine.toAbsolutePath]
        split <;> simp [*]
      exact .inl (leads absolute (prepare_beneath workingDir plainFiles plainEntries (Attempt.made_subset prepares) known))
    · exact .inl (leads located (launch_beneath there logs (Attempt.made_subset launches) known))
    · exact .inl (leads located (cleanup_beneath workingDir (Attempt.made_subset cleans) known))

end

end Eggroll.WorkingDirectory
