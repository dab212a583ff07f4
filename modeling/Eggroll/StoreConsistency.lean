import Eggroll.StoreCrud

/-! A store's partitions and the count that its locator records: when creating a store
leaves them in agreement, now and for whoever gets the store later. -/
namespace Eggroll.StoreCrud
open Library
open Program hiding call

namespace Metadata

/-- Ids come from the auto-increment column: what there is has one below the next. -/
structure Sound (s : Metadata) : Prop where
  locators : ∀ row ∈ s.locators, row.storeLocatorId < s.nextId
  partitions : ∀ row ∈ s.partitions, row.storeLocatorId < s.nextId

theorem Sound.empty : Metadata.empty.Sound := by
  constructor <;> exact fun row member => absurd member List.not_mem_nil

private theorem Sound.partitionsOf_nextId {s : Metadata} (sound : s.Sound) : s.partitionsOf s.nextId = [] := by
  refine List.filter_eq_nil_iff.mpr fun row member => ?_
  have below := sound.partitions row member
  simp only [decide_eq_true_eq]
  omega

theorem serve_ok {s : Metadata} {op : Op} {env : Env} (works : env.outcome ≠ .failed) :
    serve s op env = some (s.answer op env) := if_neg fun failed => works failed.2

theorem serve_failed {s : Metadata} {op : Op} {env : Env} (database : fallible op = true)
    (failed : env.outcome = .failed) : serve s op env = some (s,.error .sql) := if_pos ⟨database,failed⟩

theorem run_call {env : ℕ → Env} {op : Op} {s t : Metadata} {n : ℕ} {answer : Except Failure (Ans op)}
    (served : serve s op (env n) = some (t,answer)) :
    (call op).run serve env s n = some (t,n + 1,answer) := run_perform served

def addPartitions (s : Metadata) (rows : List StorePartition) : Metadata :=
  { s with partitions := s.partitions ++ rows }

private theorem addPartitions_nil (s : Metadata) : s.addPartitions [] = s := by
  rw [addPartitions,List.append_nil]

private theorem addPartitions_append (s : Metadata) (first second : List StorePartition) :
    (s.addPartitions first).addPartitions second = s.addPartitions (first ++ second) := by
  simp only [addPartitions,List.append_assoc]

def SameLocators (s t : Metadata) : Prop := t.locators = s.locators ∧ t.nextId = s.nextId

theorem SameLocators.trans {s t u : Metadata} (first : s.SameLocators t) (second : t.SameLocators u) :
    s.SameLocators u := ⟨second.1.trans first.1,second.2.trans first.2⟩

end Metadata

section
variable (id : ℕ) (input : ErStore) (serverNodes : List Int) {env : ℕ → Env} {s : Metadata} {n : ℕ}

private theorem savePartition_done (i : ℕ) (done : (env n).outcome = .done) :
    (savePartition id input serverNodes i).run Metadata.serve env s n =
      some (s.addPartitions [nodeRecord id input serverNodes i],n + 1,
        .ok (newPartition input serverNodes i)) := by
  have served : Metadata.serve s (.savePartition (nodeRecord id input serverNodes i)) (env n) =
      some (s.addPartitions [nodeRecord id input serverNodes i],.ok true) := by
    rw [Metadata.serve_ok (by rw [done]; decide),Metadata.answer,if_neg (by rw [done]; decide)]
    rfl
  rw [savePartition,run_bind_ok (Metadata.run_call served)]
  rfl

private theorem savePartition_raises (i : ℕ) (fails : (env n).outcome ≠ .done) :
    ∃ e, (savePartition id input serverNodes i).run Metadata.serve env s n = some (s,n + 1,.error e) := by
  cases outcome : (env n).outcome with
  | done => exact absurd outcome fails
  | unsaved =>
    have served : Metadata.serve s (.savePartition (nodeRecord id input serverNodes i)) (env n) =
        some (s,.ok false) := by
      rw [Metadata.serve_ok (by rw [outcome]; decide),Metadata.answer,if_pos outcome]
    refine ⟨.crud "Illegal rows affected when creating node: 0",?_⟩
    rw [savePartition,run_bind_ok (Metadata.run_call served)]
    rfl
  | failed =>
    refine ⟨.sql,?_⟩
    rw [savePartition,run_bind_error (Metadata.run_call (Metadata.serve_failed rfl outcome))]

private theorem savePartitions_done (indices : List ℕ) (done : ∀ k < indices.length, (env (n + k)).outcome = .done) :
    (savePartitions id input serverNodes indices).run Metadata.serve env s n =
      some (s.addPartitions (indices.map (nodeRecord id input serverNodes)),
        n + indices.length,.ok (indices.map (newPartition input serverNodes))) := by
  induction indices generalizing s n with
  | nil =>
    rw [List.map_nil,Metadata.addPartitions_nil]
    rfl
  | cons i rest ih =>
    have first : (env n).outcome = .done := done 0 (Nat.zero_lt_succ _)
    have others : ∀ k < rest.length, (env (n + 1 + k)).outcome = .done := by
      intro k inside
      have there := done (k + 1) (Nat.succ_lt_succ inside)
      rwa [show n + 1 + k = n + (k + 1) by omega]
    rw [savePartitions,run_bind_ok (savePartition_done id input serverNodes i first),
      run_bind_ok (ih others),pure_eq,run]
    rw [Metadata.addPartitions_append,List.singleton_append,List.length_cons,Nat.add_right_comm]
    rfl

private theorem savePartitions_raises (indices : List ℕ) {k : ℕ} (inside : k < indices.length)
    (fails : (env (n + k)).outcome ≠ .done) :
    ∃ t m e, (savePartitions id input serverNodes indices).run Metadata.serve env s n = some (t,m,.error e) ∧
      s.SameLocators t := by
  induction indices generalizing s n k with
  | nil => exact absurd inside (Nat.not_lt_zero k)
  | cons i rest ih =>
    by_cases first : (env n).outcome = .done
    · cases k with
      | zero => exact absurd first fails
      | succ k =>
        have later : (env (n + 1 + k)).outcome ≠ .done := by rwa [show n + 1 + k = n + (k + 1) by omega]
        obtain ⟨t,m,e,ran,same⟩ :=
          ih (s := s.addPartitions [nodeRecord id input serverNodes i])
            (Nat.lt_of_succ_lt_succ inside) later
        refine ⟨t,m,e,?_,same⟩
        rw [savePartitions,run_bind_ok (savePartition_done id input serverNodes i first),run_bind_error ran]
    · obtain ⟨e,ran⟩ := savePartition_raises id input serverNodes i first
      exact ⟨s,n + 1,e,by rw [savePartitions,run_bind_error ran],rfl,rfl⟩

private theorem saveOptions_done (options : Options) (kept : ∀ k < options.length, (env (n + k)).outcome ≠ .failed) :
    ∃ t m, (saveOptions id options).run Metadata.serve env s n = some (t,m,.ok ()) ∧
      s.SameLocators t ∧ t.partitions = s.partitions := by
  induction options generalizing s n with
  | nil => exact ⟨s,n,rfl,⟨rfl,rfl⟩,rfl⟩
  | cons option rest ih =>
    have first : (env n).outcome ≠ .failed := kept 0 (Nat.zero_lt_succ _)
    have others : ∀ k < rest.length, (env (n + 1 + k)).outcome ≠ .failed := by
      intro k inside
      have there := kept (k + 1) (Nat.succ_lt_succ inside)
      rwa [show n + 1 + k = n + (k + 1) by omega]
    obtain ⟨u,saved,served,same,parts⟩ : ∃ u saved,
        Metadata.serve s (.saveOption ⟨id,option.1,option.2⟩) (env n) = some (u,.ok saved) ∧
          s.SameLocators u ∧ u.partitions = s.partitions := by
      rw [Metadata.serve_ok first,Metadata.answer]
      split
      · exact ⟨s,false,rfl,⟨rfl,rfl⟩,rfl⟩
      · exact ⟨_,true,rfl,⟨rfl,rfl⟩,rfl⟩
    obtain ⟨t,m,ran,same',parts'⟩ := ih (s := u) others
    refine ⟨t,m,?_,same.trans same',parts'.trans parts⟩
    rw [saveOptions,run_bind_ok (Metadata.run_call served),ran]

private theorem saveOptions_raises (options : Options) {k : ℕ} (inside : k < options.length)
    (fails : (env (n + k)).outcome = .failed) :
    ∃ t m e, (saveOptions id options).run Metadata.serve env s n = some (t,m,.error e) ∧ s.SameLocators t := by
  induction options generalizing s n k with
  | nil => exact absurd inside (Nat.not_lt_zero k)
  | cons option rest ih =>
    by_cases first : (env n).outcome = .failed
    · refine ⟨s,n + 1,.sql,?_,rfl,rfl⟩
      rw [saveOptions,run_bind_error (Metadata.run_call (Metadata.serve_failed rfl first))]
    · cases k with
      | zero => exact absurd fails first
      | succ k =>
        have later : (env (n + 1 + k)).outcome = .failed := by rwa [show n + 1 + k = n + (k + 1) by omega]
        obtain ⟨u,saved,served,same⟩ : ∃ u saved,
            Metadata.serve s (.saveOption ⟨id,option.1,option.2⟩) (env n) = some (u,.ok saved) ∧
              s.SameLocators u := by
          rw [Metadata.serve_ok first,Metadata.answer]
          split
          · exact ⟨s,false,rfl,rfl,rfl⟩
          · exact ⟨_,true,rfl,rfl,rfl⟩
        obtain ⟨t,m,e,ran,same'⟩ := ih (s := u) (Nat.lt_of_succ_lt_succ inside) later
        refine ⟨t,m,e,?_,same.trans same'⟩
        rw [saveOptions,run_bind_ok (Metadata.run_call served),ran]

def made (input : ErStore) (listed : Env) : ℕ :=
  (newTotalPartitions input.storeLocator.totalPartitions listed.nodes.length).toNat

def sorted (listed : Env) : List Int := listed.nodes.insertionSort (· ≤ ·)

private theorem createPartitions_listed (listed : (env n).outcome ≠ .failed) (healthy : (env n).nodes ≠ []) :
    (createPartitions id input).run Metadata.serve env s n =
      (do
        let newPartitions ← savePartitions id input (sorted (env n)) (List.range (made input (env n)))
        saveOptions id input.options
        pure ⟨input.storeLocator,newPartitions,input.options⟩ : Crud ErStore).run Metadata.serve env s (n + 1) := by
  have some_node : (env n).nodes.insertionSort (· ≤ ·) ≠ [] := by
    rwa [ne_eq,← List.length_eq_zero_iff,List.length_insertionSort,List.length_eq_zero_iff]
  rw [createPartitions,run_bind_ok (Metadata.run_call (Metadata.serve_ok listed))]
  simp only [List.length_insertionSort,if_neg some_node]
  rfl

theorem createPartitions_returns (listed : (env n).outcome ≠ .failed) (healthy : (env n).nodes ≠ [])
    (saved : ∀ k < made input (env n), (env (n + 1 + k)).outcome = .done)
    (kept : ∀ k < input.options.length, (env (n + 1 + made input (env n) + k)).outcome ≠ .failed) :
    ∃ t m, (createPartitions id input).run Metadata.serve env s n = some (t,m,
        .ok ⟨input.storeLocator,(List.range (made input (env n))).map (newPartition input (sorted (env n))),
          input.options⟩) ∧ s.SameLocators t ∧
      t.partitions = s.partitions ++ (List.range (made input (env n))).map (nodeRecord id input (sorted (env n))) := by
  have parts := savePartitions_done id input (sorted (env n)) (s := s) (n := n + 1)
    (List.range (made input (env n))) (by rwa [List.length_range])
  rw [List.length_range] at parts
  obtain ⟨t,m,options,same,unchanged⟩ := saveOptions_done id (s := s.addPartitions
      ((List.range (made input (env n))).map (nodeRecord id input (sorted (env n))))) input.options kept
  refine ⟨t,m,?_,same,unchanged⟩
  rw [createPartitions_listed id input listed healthy,run_bind_ok parts,run_bind_ok options]
  rfl

private theorem createPartitions_raises (fails : (env n).outcome = .failed ∨ (env n).nodes = [] ∨
      (∃ k < made input (env n), (env (n + 1 + k)).outcome ≠ .done) ∨
      ∃ k < input.options.length, (env (n + 1 + made input (env n) + k)).outcome = .failed) :
    ∃ t m e, (createPartitions id input).run Metadata.serve env s n = some (t,m,.error e) ∧
      s.SameLocators t := by
  by_cases listed : (env n).outcome = .failed
  · refine ⟨s,n + 1,.sql,?_,rfl,rfl⟩
    rw [createPartitions,run_bind_error (Metadata.run_call (Metadata.serve_failed rfl listed))]
  by_cases healthy : (env n).nodes = []
  · refine ⟨s,n + 1,.noHealthNode,?_,rfl,rfl⟩
    rw [createPartitions,run_bind_ok (Metadata.run_call (Metadata.serve_ok listed))]
    simp only [healthy,List.insertionSort_nil,if_true]
    rfl
  rw [createPartitions_listed id input listed healthy]
  by_cases saved : ∀ k < made input (env n), (env (n + 1 + k)).outcome = .done
  · have parts := savePartitions_done id input (sorted (env n)) (s := s) (n := n + 1)
      (List.range (made input (env n))) (by rwa [List.length_range])
    rw [List.length_range] at parts
    obtain ⟨k,inside,failed⟩ : ∃ k < input.options.length,
        (env (n + 1 + made input (env n) + k)).outcome = .failed := by
      rcases fails with none_listed | none_healthy | ⟨k,inside,unsaved⟩ | option
      · exact absurd none_listed listed
      · exact absurd none_healthy healthy
      · exact absurd (saved k inside) unsaved
      · exact option
    obtain ⟨t,m,e,options,same⟩ := saveOptions_raises id (s := s.addPartitions
      ((List.range (made input (env n))).map (nodeRecord id input (sorted (env n))))) input.options inside failed
    refine ⟨t,m,e,?_,same⟩
    rw [run_bind_ok parts,run_bind_error options]
  · push Not at saved
    obtain ⟨k,inside,unsaved⟩ := saved
    obtain ⟨t,m,e,parts,same⟩ := savePartitions_raises id input (sorted (env n)) (s := s)
      (List.range (made input (env n))) (by rwa [List.length_range]) unsaved
    refine ⟨t,m,e,?_,same⟩
    rw [run_bind_error parts]

end

inductive Request
  | get (input : ErStore)
  | create (input : ErStore)
  | getOrCreate (input : ErStore)
  | delete (input : ErStore)
deriving Repr, DecidableEq

def Request.program : Request → Crud (Option ErStore)
  | .get input => doGetStore input
  | .create input => do
    let store ← doCreateStore input
    pure (some store)
  | .getOrCreate input => do
    let store ← doGetOrCreateStore input
    pure (some store)
  | .delete input => doDeleteStore input

/-- The metadata after some requests, however they have gone. -/
inductive Later (s : Metadata) : Metadata → Prop
  | now : Later s s
  | request {t u : Metadata} (before : Later s t) (request : Request) (env : ℕ → Env) (n : ℕ)
      (result : Except Failure (Option ErStore))
      (ran : request.program.run Metadata.serve env t 0 = some (u,n,result)) : Later s u

/-- The partitions of the locators that there were and the count that each records. -/
structure Extends (t u : Metadata) : Prop where
  more : t.nextId ≤ u.nextId
  partitions : ∀ id < t.nextId, u.partitionsOf id = t.partitionsOf id
  recorded : ∀ row ∈ u.locators, row.storeLocatorId < t.nextId → ∃ old ∈ t.locators,
    old.storeLocatorId = row.storeLocatorId ∧ old.totalPartitions = row.totalPartitions

namespace Extends
variable {t u : Metadata}

theorem refl (t : Metadata) : Extends t t :=
  ⟨Nat.le_refl _,fun _ _ => rfl,fun row member _ => ⟨row,member,rfl,rfl⟩⟩

theorem update (ext : Extends t u) {f : StoreLocator → StoreLocator}
    (keeps : ∀ row, (f row).storeLocatorId = row.storeLocatorId ∧ (f row).totalPartitions = row.totalPartitions) :
    Extends t (u.update f).1 := by
  unfold Metadata.update
  split
  · refine ⟨ext.more,ext.partitions,fun row member below => ?_⟩
    obtain ⟨before,there,rfl⟩ := List.mem_map.mp member
    rw [(keeps before).1] at below
    obtain ⟨old,known,same,count⟩ := ext.recorded before there below
    exact ⟨old,known,same.trans (keeps before).1.symm,count.trans (keeps before).2.symm⟩
  · exact ext

theorem saveLocator (ext : Extends t u) (row : StoreLocator) (outcome : Outcome) :
    Extends t (u.saveLocator row outcome).1 := by
  unfold Metadata.saveLocator
  split
  · exact ext
  split
  · exact ext
  · refine ⟨Nat.le_succ_of_le ext.more,ext.partitions,fun other member below => ?_⟩
    rcases List.mem_append.mp member with there | new
    · exact ext.recorded other there below
    · rw [List.mem_singleton.mp new] at below
      exact absurd ext.more (Nat.not_le_of_lt below)

theorem savePartition (ext : Extends t u) {row : StorePartition} (beyond : t.nextId ≤ row.storeLocatorId) :
    Extends t { u with partitions := u.partitions ++ [row] } := by
  refine ⟨ext.more,fun id below => ?_,ext.recorded⟩
  have other : row.storeLocatorId ≠ id := by omega
  rw [← ext.partitions id below]
  simp [Metadata.partitionsOf,List.filter_append,other]

theorem answer (ext : Extends t u) (op : Op) (env : Env)
    (beyond : ∀ row, op = .savePartition row → t.nextId ≤ row.storeLocatorId) :
    Extends t (u.answer op env).1 := by
  cases op with
  | saveLocator row => exact ext.saveLocator row env.outcome
  | savePartition row =>
    simp only [Metadata.answer]
    split
    · exact ext
    · exact ext.savePartition (beyond row rfl)
  | saveOption row =>
    simp only [Metadata.answer]
    split
    · exact ext
    · exact ⟨ext.more,ext.partitions,ext.recorded⟩
  | deleteAll nameSpace storeType millis =>
    refine ext.update fun row => ?_
    split <;> exact ⟨rfl,rfl⟩
  | deleteLocator id name =>
    refine ext.update fun row => ?_
    split <;> exact ⟨rfl,rfl⟩
  | putNodes ids => exact ⟨ext.more,ext.partitions,ext.recorded⟩
  | _ => exact ext

theorem serve (ext : Extends t u) {op : Op} {env : Env} {v : Metadata} {answer : Except Failure (Ans op)}
    (beyond : ∀ row, op = .savePartition row → t.nextId ≤ row.storeLocatorId)
    (served : Metadata.serve u op env = some (v,answer)) : Extends t v := by
  unfold Metadata.serve at served
  split at served
  · cases served
    exact ext
  · have now := ext.answer op env beyond
    rw [Option.some.inj served] at now
    exact now

end Extends

def Keeps (t : Metadata) {α : Type} (p : Crud α) (u : Metadata) : Prop :=
  p.Sat (.alone (Extends t)) Metadata.serve (fun _ _ => True) u

section
variable {t u : Metadata} {α β : Type}

theorem Keeps.ended (result : Except Failure α) : Keeps t (.ended result) u := fun _ _ _ => trivial

theorem Keeps.bind {p : Crud α} {f : α → Crud β} (keeps : Keeps t p u) (ext : Extends t u)
    (follows : ∀ a v, Extends t v → Keeps t (f a) v) : Keeps t (p >>= f) u :=
  Sat.bind keeps ext (fun a v now _ => follows a v now) fun e _ _ _ => Keeps.ended (.error e)

theorem Keeps.call (op : Op) (beyond : ∀ row, op = .savePartition row → t.nextId ≤ row.storeLocatorId) :
    Keeps t (call op) u := by
  rintro v rfl ext env w answer served
  exact ⟨ext.serve beyond served,trivial,Keeps.ended answer⟩

private theorem savePartitions_keeps {id : ℕ} (beyond : t.nextId ≤ id) (input : ErStore) (serverNodes : List Int)
    (indices : List ℕ) (ext : Extends t u) : Keeps t (savePartitions id input serverNodes indices) u := by
  induction indices generalizing u with
  | nil => exact .ended _
  | cons i rest ih =>
    refine Keeps.bind (Keeps.bind (.call _ ?_) ext ?_) ext fun _ v now => (ih now).bind now fun _ _ _ => .ended _
    · rintro row ⟨rfl⟩
      exact beyond
    · intro saved v now
      split
      · exact .ended _
      · exact .ended _

private theorem saveOptions_keeps (id : ℕ) (options : Options) (ext : Extends t u) :
    Keeps t (saveOptions id options) u := by
  induction options generalizing u with
  | nil => exact .ended _
  | cons option rest ih => exact Keeps.bind (.call _ nofun) ext fun _ v now => ih now

private theorem createPartitions_keeps {id : ℕ} (beyond : t.nextId ≤ id) (input : ErStore) (ext : Extends t u) :
    Keeps t (createPartitions id input) u := by
  refine Keeps.bind (.call _ nofun) ext fun nodes v now => ?_
  dsimp only
  split
  · exact .ended _
  · refine (savePartitions_keeps beyond input _ _ now).bind now fun parts w later => ?_
    exact (saveOptions_keeps id input.options later).bind later fun _ _ _ => .ended _

private theorem doCreateStore_keeps (input : ErStore) (ext : Extends t u) : Keeps t (doCreateStore input) u := by
  have saves : (call (.saveLocator input.storeLocator.newStoreLocator)).Sat (.alone (Extends t)) Metadata.serve
      (fun answer _ => ∀ id, answer = .ok (some id) → t.nextId ≤ id) u := by
    rintro v rfl ext env w answer served
    refine ⟨ext.serve ?_ served,trivial,?_⟩
    · exact nofun
    rintro _ rfl _ id rfl
    unfold Metadata.serve at served
    split at served
    · cases served
    simp only [Metadata.answer,Metadata.saveLocator] at served
    split at served
    · cases served
    split at served
    · cases served
    · cases served
      exact ext.more
  refine Sat.bind saves ext (fun saved v now fresh => ?_) fun e _ _ _ => Keeps.ended (.error e)
  cases saved with
  | none => exact Keeps.ended _
  | some id => exact createPartitions_keeps (fresh id rfl) input now

private theorem doGetStore_keeps (query : ErStore) (ext : Extends t u) : Keeps t (doGetStore query) u := by
  refine Keeps.bind (.call _ nofun) ext fun rows v now => ?_
  cases rows with
  | nil => exact .ended _
  | cons store rest =>
    refine Keeps.bind (.call _ nofun) now fun parts w now' => ?_
    split
    · exact .ended _
    refine Keeps.bind (.call _ nofun) now' fun missing x now'' => ?_
    refine Keeps.bind ?_ now'' fun _ y last => Keeps.bind (.call _ nofun) last fun _ _ _ => .ended _
    unfold lookUpNodes
    split
    · exact .ended _
    refine Keeps.bind (.call _ nofun) now'' fun found z _ => ?_
    split
    · exact .ended _
    · exact .call _ nofun

private theorem doDeleteStore_keeps (input : ErStore) (ext : Extends t u) : Keeps t (doDeleteStore input) u := by
  unfold doDeleteStore
  split
  · refine Keeps.bind (.call _ nofun) ext fun millis v now => ?_
    exact Keeps.bind (.call _ nofun) now fun _ _ _ => .ended _
  · refine Keeps.bind (.call _ nofun) ext fun rows v now => ?_
    cases rows with
    | nil => exact .ended _
    | cons store rest =>
      refine Keeps.bind (.call _ nofun) now fun millis w now' => ?_
      exact Keeps.bind (.call _ nofun) now' fun _ _ _ => .ended _

private theorem doGetOrCreateStore_keeps (input : ErStore) (ext : Extends t u) :
    Keeps t (doGetOrCreateStore input) u := by
  refine Sat.andThen (Q := fun _ _ => True) ?_ ext fun result v now _ => ?_
  · refine Keeps.bind (.call _ nofun) ext fun _ v now => ?_
    refine (doGetStore_keeps _ now).bind now fun existing w now' => ?_
    cases existing with
    | some store => exact .ended _
    | none => exact doCreateStore_keeps input now'
  · exact Keeps.bind (.call _ nofun) now fun _ _ _ => .ended _

theorem Request.keeps (request : Request) (ext : Extends t u) : Keeps t request.program u := by
  cases request with
  | get input => exact doGetStore_keeps input ext
  | create input => exact (doCreateStore_keeps input ext).bind ext fun _ _ _ => .ended _
  | getOrCreate input => exact (doGetOrCreateStore_keeps input ext).bind ext fun _ _ _ => .ended _
  | delete input => exact doDeleteStore_keeps input ext

end

theorem Later.extends {t u : Metadata} (later : Later t u) : Extends t u := by
  induction later with
  | now => exact .refl t
  | request before request env n result ran ih => exact ((request.keeps ih).run ih ran).1

def SameTables (s t : Metadata) : Prop := t.locators = s.locators ∧ t.partitions = s.partitions

def Op.reads : Op → Bool
  | .saveLocator _ | .savePartition _ | .saveOption _ | .deleteAll _ _ _ | .deleteLocator _ _ => false
  | _ => true

private theorem call_reads {u v : Metadata} {op : Op} (reads : op.reads = true) :
    (call op).Sat (.alone (SameTables u)) Metadata.serve
      (fun result _ => ∀ a, result = .ok a → ∃ w env, SameTables u w ∧ (w.answer op env).2 = .ok a) v := by
  rintro w moved same env x answer served
  have kept : SameTables u (w.answer op env).1 := by
    cases op with
    | saveLocator row => cases reads
    | savePartition row => cases reads
    | saveOption row => cases reads
    | deleteAll nameSpace storeType millis => cases reads
    | deleteLocator id name => cases reads
    | _ => exact same
  unfold Metadata.serve at served
  split at served
  · cases served
    exact ⟨same,trivial,fun _ _ _ => nofun⟩
  · have now := Option.some.inj served
    rw [now] at kept
    exact ⟨kept,trivial,fun y _ _ a given => ⟨w,env,same,by rw [now,given]⟩⟩

/-- What is got is a locator of the table with the partitions that the table has for it. -/
def Gives (u : Metadata) (result : Except Failure (Option ErStore)) : Prop :=
  ∀ got, result = .ok (some got) → ∃ row ∈ u.locators, got.storeLocator = row.toErStoreLocator ∧
    got.partitions.map ErPartition.id = (u.partitionsOf row.storeLocatorId).map StorePartition.partitionId

private theorem doGetStore_gives (query : ErStore) (u : Metadata) :
    (doGetStore query).Sat (.alone (SameTables u)) Metadata.serve (fun result _ => Gives u result) u := by
  have nothing {v : Metadata} {result : Except Failure (Option ErStore)} (none_got : ∀ got, result ≠ .ok (some got)) :
      (ended result : Crud (Option ErStore)).Sat (.alone (SameTables u)) Metadata.serve
        (fun result _ => Gives u result) v := fun _ _ _ got given => absurd given (none_got got)
  have start : SameTables u u := ⟨rfl,rfl⟩
  refine Sat.bind (call_reads rfl) start (fun rows v now given => ?_) fun _ _ _ _ => nothing nofun
  obtain ⟨w,_,same,answered⟩ := given rows rfl
  cases rows with
  | nil => exact nothing nofun
  | cons store rest =>
    have there : store ∈ u.locators := by
      rw [← same.1]
      have first : store ∈ store :: rest := List.mem_cons_self
      rw [← Except.ok.inj answered] at first
      exact List.mem_of_mem_filter first
    refine Sat.bind (call_reads rfl) now (fun parts x now' given => ?_) fun _ _ _ _ => nothing nofun
    obtain ⟨y,_,same',answered'⟩ := given parts rfl
    have all : u.partitionsOf store.storeLocatorId = parts := by
      rw [← Except.ok.inj answered',Metadata.partitionsOf,Metadata.partitionsOf,same'.2]
    split
    · exact nothing nofun
    refine Sat.bind (call_reads rfl) now' (fun missing z now'' _ => ?_) fun _ _ _ _ => nothing nofun
    refine Sat.bind (Q := fun _ _ => True) ?_ now'' (fun _ a last _ => ?_) fun _ _ _ _ => nothing nofun
    · unfold lookUpNodes
      split
      · exact fun _ _ _ => trivial
      refine Sat.bind (call_reads rfl) now'' (fun found b later _ => ?_) fun _ _ _ _ _ _ _ => trivial
      split
      · exact fun _ _ _ => trivial
      · exact (call_reads rfl).mono fun _ _ _ _ => trivial
    · refine Sat.bind (call_reads rfl) last (fun opts b _ _ => ?_) fun _ _ _ _ => nothing nofun
      intro c _ _ got given
      cases given
      refine ⟨store,there,rfl,?_⟩
      rw [all]
      simp only [StoreLocator.toErStore,List.map_map,Function.comp_def]

def Indexed (store : ErStore) : Prop :=
  ∃ n : ℕ, store.storeLocator.totalPartitions = n ∧
    store.partitions.map ErPartition.id = (List.range n).map fun i : ℕ => (i : Int)

/-- A store that is created is indexed for its creator and for whoever gets it later; a
creation that raises leaves no normal locator of its name. -/
structure CreateMeets (s : Metadata) (env : ℕ → Env) (input : ErStore) : Prop where
  returned : ∀ t n store, (doCreateStore input).run Metadata.serve env s 0 = some (t,n,.ok store) →
    Indexed store ∧ ∀ u, Later t u → ∀ query env' v m got,
      (doGetStore query).run Metadata.serve env' u 0 = some (v,m,.ok (some got)) →
        got.storeLocator.id = s.nextId → Indexed got
  raised : ∀ t n e, (doCreateStore input).run Metadata.serve env s 0 = some (t,n,.error e) →
    ∀ row ∈ t.locators, row.status = .NORMAL → row.nameSpace = input.storeLocator.nameSpace →
      row.name = input.storeLocator.name → row ∈ s.locators

/-- The locator itself is not saved. -/
def Refused (s : Metadata) (env : ℕ → Env) (input : ErStore) : Prop :=
  (env 0).outcome ≠ .done ∨
    ∃ row ∈ s.locators, row.key = indexKey input.storeLocator.nameSpace input.storeLocator.name

/-- There are nodes, and every call that follows the locator's goes well. -/
structure Completes (env : ℕ → Env) (input : ErStore) : Prop where
  listed : (env 1).outcome ≠ .failed
  healthy : (env 1).nodes ≠ []
  saved : ∀ k < made input (env 1), (env (2 + k)).outcome = .done
  kept : ∀ k < input.options.length, (env (2 + made input (env 1) + k)).outcome ≠ .failed

/-- A count is asked for, or none is and `nodesCount << 2` overflows. -/
def Counted (env : ℕ → Env) (input : ErStore) : Prop :=
  0 < input.storeLocator.totalPartitions ∨
    input.storeLocator.totalPartitions = 0 ∧ wrapInt ((env 1).nodes.length * 4) ≤ 0

private theorem counted_iff (env : ℕ → Env) (input : ErStore) :
    Counted env input ↔ input.storeLocator.totalPartitions = made input (env 1) := by
  unfold Counted made newTotalPartitions
  split <;> omega

private theorem indexed_iff (env : ℕ → Env) (input : ErStore) (serverNodes : List Int) (options : Options) :
    Indexed ⟨input.storeLocator,(List.range (made input (env 1))).map (newPartition input serverNodes),options⟩ ↔
      Counted env input := by
  have ids : ((List.range (made input (env 1))).map (newPartition input serverNodes)).map ErPartition.id =
      (List.range (made input (env 1))).map fun i : ℕ => (i : Int) := by
    rw [List.map_map]
    rfl
  rw [counted_iff]
  constructor
  · rintro ⟨n,count,same⟩
    rw [ids] at same
    have long := congrArg List.length same
    simp only [List.length_map,List.length_range] at long
    rw [long]
    exact count
  · exact fun count => ⟨_,count,ids⟩

section
variable {s : Metadata} {env : ℕ → Env} {input : ErStore}

def located (s : Metadata) (input : ErStore) : Metadata :=
  { s with
    locators := s.locators ++ [{ input.storeLocator.newStoreLocator with storeLocatorId := s.nextId }]
    nextId := s.nextId + 1 }

theorem create_refused (refused : Refused s env input) :
    ∃ e, (doCreateStore input).run Metadata.serve env s 0 = some (s,1,.error e) := by
  cases outcome : (env 0).outcome with
  | failed =>
    refine ⟨.sql,?_⟩
    rw [doCreateStore,run_bind_error (Metadata.run_call (Metadata.serve_failed rfl outcome))]
  | unsaved =>
    have served : Metadata.serve s (.saveLocator input.storeLocator.newStoreLocator) (env 0) = some (s,.ok none) := by
      rw [Metadata.serve_ok (by rw [outcome]; decide),Metadata.answer,Metadata.saveLocator,if_pos outcome]
    refine ⟨.crud "Illegal rows affected returned when creating store locator: 0",?_⟩
    rw [doCreateStore,run_bind_ok (Metadata.run_call served)]
    rfl
  | done =>
    obtain ⟨row,there,key⟩ : ∃ row ∈ s.locators,
        row.key = indexKey input.storeLocator.nameSpace input.storeLocator.name :=
      refused.resolve_left (absurd outcome)
    have taken : (s.locators.any fun other => other.key = input.storeLocator.newStoreLocator.key) = true :=
      List.any_eq_true.mpr ⟨row,there,decide_eq_true key⟩
    have served : Metadata.serve s (.saveLocator input.storeLocator.newStoreLocator) (env 0) =
        some (s,.error .duplicate) := by
      rw [Metadata.serve_ok (by rw [outcome]; decide),Metadata.answer,Metadata.saveLocator,
        if_neg (by rw [outcome]; decide),if_pos taken]
    exact ⟨.duplicate,by rw [doCreateStore,run_bind_error (Metadata.run_call served)]⟩

theorem create_located (taken : ¬ Refused s env input) :
    (doCreateStore input).run Metadata.serve env s 0 =
      (createPartitions s.nextId input).run Metadata.serve env (located s input) 1 := by
  obtain ⟨done,free⟩ := not_or.mp taken
  have outcome : (env 0).outcome = .done := not_not.mp done
  have unique : ¬ (s.locators.any fun other => other.key = input.storeLocator.newStoreLocator.key) = true := by
    intro found
    obtain ⟨row,there,key⟩ := List.any_eq_true.mp found
    exact free ⟨row,there,of_decide_eq_true key⟩
  have served : Metadata.serve s (.saveLocator input.storeLocator.newStoreLocator) (env 0) =
      some (located s input,.ok (some s.nextId)) := by
    rw [Metadata.serve_ok (by rw [outcome]; decide),Metadata.answer,Metadata.saveLocator,
      if_neg (by rw [outcome]; decide),if_neg unique]
    rfl
  rw [doCreateStore,run_bind_ok (Metadata.run_call served)]

theorem createPartitions_unfinished (fails : ¬ Completes env input) :
    ∃ t m e, (createPartitions s.nextId input).run Metadata.serve env (located s input) 1 = some (t,m,.error e) ∧
      (located s input).SameLocators t := by
  refine createPartitions_raises s.nextId input ?_
  by_contra none_fails
  push Not at none_fails
  exact fails ⟨none_fails.1,none_fails.2.1,none_fails.2.2.1,none_fails.2.2.2⟩

private theorem located_left (sound : s.Sound) {t : Metadata} (same : (located s input).SameLocators t) :
    ¬ ∀ row ∈ t.locators, row.status = .NORMAL → row.nameSpace = input.storeLocator.nameSpace →
      row.name = input.storeLocator.name → row ∈ s.locators := by
  intro nothing
  have there : { input.storeLocator.newStoreLocator with storeLocatorId := s.nextId } ∈ t.locators := by
    rw [same.1]
    exact List.mem_append_right _ (List.mem_singleton.mpr rfl)
  exact absurd (sound.locators _ (nothing _ there rfl rfl rfl)) (Nat.lt_irrefl _)

private theorem got_later (sound : s.Sound) {serverNodes : List Int} {t u : Metadata}
    (same : (located s input).SameLocators t)
    (saved : t.partitions = s.partitions ++ (List.range (made input (env 1))).map (nodeRecord s.nextId input serverNodes))
    (later : Later t u) {query : ErStore} {env' : ℕ → Env} {v : Metadata} {m : ℕ} {got : ErStore}
    (ran : (doGetStore query).run Metadata.serve env' u 0 = some (v,m,.ok (some got)))
    (this : got.storeLocator.id = s.nextId) :
    got.storeLocator.totalPartitions = input.storeLocator.totalPartitions ∧
      got.partitions.map ErPartition.id = (List.range (made input (env 1))).map fun i : ℕ => (i : Int) := by
  obtain ⟨row,there,locator,ids⟩ := ((doGetStore_gives query u).run ⟨rfl,rfl⟩ ran).2 got rfl
  have id : row.storeLocatorId = s.nextId := by
    rw [locator] at this
    exact Int.ofNat.inj this
  have below : s.nextId < t.nextId := by
    rw [same.2]
    exact Nat.lt_succ_self _
  obtain ⟨old,known,same_id,count⟩ := later.extends.recorded row there (by rw [id]; exact below)
  have new : old = { input.storeLocator.newStoreLocator with storeLocatorId := s.nextId } := by
    rw [same.1] at known
    rcases List.mem_append.mp known with before | last
    · have less := sound.locators old before
      rw [same_id,id] at less
      exact absurd less (Nat.lt_irrefl _)
    · exact List.mem_singleton.mp last
  constructor
  · rw [locator]
    change row.totalPartitions = _
    rw [← count,new]
    rfl
  · have none_before : s.partitions.filter (fun row => row.storeLocatorId = s.nextId) = [] :=
      sound.partitionsOf_nextId
    rw [ids,id,later.extends.partitions s.nextId below,Metadata.partitionsOf,saved,List.filter_append,none_before,
      List.nil_append,List.filter_eq_self.mpr (by simp [nodeRecord]),List.map_map]
    rfl

/-- A creation is consistent exactly when the locator is not saved, or everything that
follows goes well and the count is given. -/
theorem creates_consistent (sound : s.Sound) (env : ℕ → Env) (input : ErStore) :
    CreateMeets s env input ↔ Refused s env input ∨ Completes env input ∧ Counted env input := by
  by_cases refused : Refused s env input
  · obtain ⟨e,ran⟩ := create_refused refused
    refine ⟨fun _ => .inl refused,fun _ => ⟨fun t n store returned => ?_,fun t n e raised row there _ _ _ => ?_⟩⟩
    · rw [ran] at returned
      cases returned
    · rw [ran] at raised
      cases raised
      exact there
  have goes_on := create_located refused
  by_cases completes : Completes env input
  · obtain ⟨t,m,ran,same,saved⟩ := createPartitions_returns s.nextId input (s := located s input) (n := 1)
      completes.listed completes.healthy completes.saved completes.kept
    rw [ran] at goes_on
    constructor
    · intro meets
      exact .inr ⟨completes,(indexed_iff env input _ _).mp (meets.returned t m _ goes_on).1⟩
    · rintro (absurdly | ⟨-,counted⟩)
      · exact absurd absurdly refused
      refine ⟨fun t' n store returned => ?_,fun t' n e raised => ?_⟩
      · rw [goes_on] at returned
        cases returned
        refine ⟨(indexed_iff env input _ _).mpr counted,fun u later query env' v m' got ran' this => ?_⟩
        obtain ⟨count,ids⟩ := got_later sound same saved later ran' this
        exact ⟨made input (env 1),count.trans ((counted_iff env input).mp counted),ids⟩
      · rw [goes_on] at raised
        cases raised
  · obtain ⟨t,m,e,ran,same⟩ := createPartitions_unfinished (s := s) completes
    rw [ran] at goes_on
    constructor
    · exact fun meets => absurd (meets.raised t m e goes_on) (located_left sound same)
    · rintro (absurdly | ⟨all,-⟩)
      · exact absurd absurdly refused
      · exact absurd all completes

end

def table (totalPartitions : Int) : ErStore :=
  ⟨⟨-1,"IN_MEMORY","namespace","name","",totalPartitions,0,0,0⟩,[],[]⟩

theorem creates_consistent_counted : CreateMeets .empty (fun _ => { nodes := [4,7] }) (table 3) := by
  refine (creates_consistent .empty _ _).mpr (.inr ⟨⟨by decide,by decide,fun _ _ => rfl,fun _ _ => ?_⟩,.inl ?_⟩)
  · decide
  · decide

/-- Without a count four partitions are made for a node, and the locator records none. -/
theorem uncounted_not_consistent : ¬ CreateMeets .empty (fun _ => { nodes := [4] }) (table 0) := by
  intro meets
  have ran : ((doCreateStore (table 0)).run Metadata.serve (fun _ => { nodes := [4] }) .empty 0).any
      (fun made => decide (made.2.2 = .ok ⟨(table 0).storeLocator,
        (List.range 4).map (newPartition (table 0) [4]),[]⟩)) = true := by decide +kernel
  obtain ⟨⟨t,n,result⟩,run,found⟩ := (Option.any_eq_true _ _).mp ran
  have given : result = _ := of_decide_eq_true found
  subst given
  obtain ⟨⟨k,count,ids⟩,-⟩ := meets.returned t n _ run
  have long := congrArg List.length ids
  simp only [List.length_map,List.length_range] at long
  subst long
  exact absurd count (by decide)

end Eggroll.StoreCrud
