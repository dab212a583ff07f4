import Eggroll.StoreConsistency

/-! `doDeleteStore` with the name `*`. The test on the store type is turned round: the type is
a condition of the update when it is `*`, and it is none when it is the name of a type. -/
namespace Eggroll.StoreCrud
open Library
open Program hiding call

def ErStoreLocator.selects (input : ErStoreLocator) (row : StoreLocator) : Prop :=
  row.nameSpace = input.nameSpace ∧ row.status = .NORMAL ∧ (input.storeType = "*" ∨ row.storeType = input.storeType)

instance (input : ErStoreLocator) (row : StoreLocator) : Decidable (input.selects row) :=
  inferInstanceAs (Decidable (_ ∧ _ ∧ (_ ∨ _)))

def ErStoreLocator.Marks (input : ErStoreLocator) (row after : StoreLocator) : Prop :=
  (input.selects row → ∃ name, after = { row with name := name, status := .DELETED }) ∧
    (¬ input.selects row → after = row)

structure DeletesSelected (input : ErStoreLocator) (s t : Metadata) : Prop where
  locators : List.Forall₂ input.Marks s.locators t.locators
  others : t = { s with locators := t.locators }
  gone : ∀ row ∈ s.locators, input.selects row → ∀ query : ErStore,
    query.storeLocator.nameSpace = row.nameSpace → query.storeLocator.name = row.name →
      ∀ env u n got, (doGetStore query).run Metadata.serve env t 0 = some (u,n,.ok got) → got = none

/-- The call returns, and what was selected is deleted. -/
def DeletesAll (input : ErStore) (s : Metadata) (env : ℕ → Env) : Prop :=
  ∃ t n store, (doDeleteStore input).run Metadata.serve env s 0 = some (t,n,.ok store) ∧
    DeletesSelected input.storeLocator s t

/-- Every store of the namespace has the very type that is asked for, be it one called `*`. -/
def OneType (input : ErStoreLocator) (s : Metadata) : Prop :=
  ∀ row ∈ s.locators, row.nameSpace = input.nameSpace → row.status = .NORMAL → row.storeType = input.storeType

def StoreLocator.renamed (row : StoreLocator) (millis : ℕ) : StoreLocator :=
  { row with name := row.name ++ toString millis }

/-- The unique index takes the selected rows under their new names. -/
def Renamable (input : ErStoreLocator) (s : Metadata) (millis : ℕ) : Prop :=
  ((s.locators.map fun row => if input.selects row then row.renamed millis else row).map StoreLocator.key).Nodup

section
variable {input : ErStoreLocator} {s : Metadata} {millis : ℕ}

/-- The update of `doDeleteStore`. -/
def ErStoreLocator.mark (input : ErStoreLocator) (millis : ℕ) (row : StoreLocator) : StoreLocator :=
  if row.nameSpace = input.nameSpace ∧ row.status = .NORMAL ∧
      (if input.storeType = "*" then some input.storeType else none).all (· = row.storeType) then
    { row with name := row.name ++ toString millis, status := .DELETED }
  else row

private theorem mark_condition (row : StoreLocator) :
    ((if input.storeType = "*" then some input.storeType else none).all (· = row.storeType)) = true ↔
      (input.storeType = "*" → row.storeType = "*") := by
  split
  · rename_i star
    simp [star,eq_comm]
  · rename_i other
    simp [other]

private theorem mark_selected (row : StoreLocator) (meets : input.storeType = "*" → row.storeType = "*")
    (nameSpace : row.nameSpace = input.nameSpace) (normal : row.status = .NORMAL) :
    input.mark millis row = { row with name := row.name ++ toString millis, status := .DELETED } :=
  if_pos ⟨nameSpace,normal,(mark_condition row).mpr meets⟩

private theorem mark_other (row : StoreLocator)
    (other : ¬ (row.nameSpace = input.nameSpace ∧ row.status = .NORMAL ∧ (input.storeType = "*" → row.storeType = "*"))) :
    input.mark millis row = row :=
  if_neg fun ⟨nameSpace,normal,meets⟩ => other ⟨nameSpace,normal,(mark_condition row).mp meets⟩

private theorem mark_marks (types : OneType input s) {row : StoreLocator} (there : row ∈ s.locators) :
    input.Marks row (input.mark millis row) := by
  constructor
  · rintro ⟨nameSpace,normal,-⟩
    have type := types row there nameSpace normal
    exact ⟨_,mark_selected row (fun star => type.trans star) nameSpace normal⟩
  · intro unselected
    refine mark_other row fun ⟨nameSpace,normal,_⟩ => unselected ⟨nameSpace,normal,.inr ?_⟩
    exact types row there nameSpace normal

private theorem types_of_marks {row : StoreLocator} (marks : input.Marks row (input.mark millis row))
    (nameSpace : row.nameSpace = input.nameSpace) (normal : row.status = .NORMAL) : row.storeType = input.storeType := by
  by_contra different
  by_cases star : input.storeType = "*"
  · obtain ⟨name,marked⟩ := marks.1 ⟨nameSpace,normal,.inl star⟩
    rw [mark_other row fun ⟨_,_,meets⟩ => different ((meets star).trans star.symm)] at marked
    rw [marked] at normal
    cases normal
  · have kept := marks.2 fun ⟨_,_,selected⟩ => selected.elim star different
    rw [mark_selected row (fun is => absurd is star) nameSpace normal] at kept
    rw [← kept] at normal
    cases normal

private theorem mark_key (types : OneType input s) {row : StoreLocator} (there : row ∈ s.locators) :
    (input.mark millis row).key = (if input.selects row then row.renamed millis else row).key := by
  have marks : input.Marks row (input.mark millis row) := mark_marks types there
  by_cases selected : input.selects row
  · rw [if_pos selected,mark_selected row _ selected.1 selected.2.1]
    · rfl
    · exact fun star => (types row there selected.1 selected.2.1).trans star
  · rw [if_neg selected,marks.2 selected]

private theorem renamable_iff (types : OneType input s) :
    ((s.locators.map (input.mark millis)).map StoreLocator.key).Nodup ↔ Renamable input s millis := by
  have keys : (s.locators.map (input.mark millis)).map StoreLocator.key =
      (s.locators.map fun row => if input.selects row then row.renamed millis else row).map StoreLocator.key := by
    rw [List.map_map,List.map_map]
    exact List.map_congr_left fun row there => mark_key types there
  rw [Renamable,keys]

end

section
variable {input : ErStore} {s t : Metadata} {env : ℕ → Env}

private theorem doDeleteStore_all (all : input.storeLocator.name = "*") (works : ∀ n, (env n).outcome ≠ .failed) :
    (doDeleteStore input).run Metadata.serve env s 0 =
      some ((s.update (input.storeLocator.mark (env 0).millis)).1,2,
        (s.update (input.storeLocator.mark (env 0).millis)).2.map fun _ => some ⟨input.storeLocator,[],[]⟩) := by
  have time : Metadata.serve s .currentTimeMillis (env 0) = some (s,.ok (env 0).millis) := Metadata.serve_ok (works 0)
  have update : Metadata.serve s (.deleteAll input.storeLocator.nameSpace
      (if input.storeLocator.storeType = "*" then some input.storeLocator.storeType else none) (env 0).millis) (env 1) =
        some (s.update (input.storeLocator.mark (env 0).millis)) := Metadata.serve_ok (works 1)
  rw [doDeleteStore,if_pos all,run_bind_ok (Metadata.run_call time)]
  cases updated : s.update (input.storeLocator.mark (env 0).millis) with
  | mk t answer =>
    rw [updated] at update
    cases answer with
    | ok _ =>
      rw [run_bind_ok (Metadata.run_call update)]
      rfl
    | error e =>
      rw [run_bind_error (Metadata.run_call update)]
      rfl

private theorem update_cases (f : StoreLocator → StoreLocator) :
    (((s.locators.map f).map StoreLocator.key).Nodup ∧ s.update f = ({ s with locators := s.locators.map f },.ok ())) ∨
      (¬ ((s.locators.map f).map StoreLocator.key).Nodup ∧ s.update f = (s,.error .duplicate)) := by
  unfold Metadata.update
  split
  · rename_i distinct
    exact .inl ⟨distinct,rfl⟩
  · rename_i doubled
    exact .inr ⟨doubled,rfl⟩

private theorem doGetStore_none {query : ErStore} (absent : ∀ row ∈ t.locators, row.nameSpace = query.storeLocator.nameSpace →
    row.name = query.storeLocator.name → row.status ≠ .NORMAL) {u : Metadata} {n : ℕ} {got : Option ErStore}
    (ran : (doGetStore query).run Metadata.serve env t 0 = some (u,n,.ok got)) : got = none := by
  let type := if isBlank query.storeLocator.storeType then none else some query.storeLocator.storeType
  by_cases fails : (env 0).outcome = .failed
  · have served : Metadata.serve t (.listLocators query.storeLocator.nameSpace query.storeLocator.name type) (env 0) =
        some (t,.error .sql) := Metadata.serve_failed rfl fails
    rw [doGetStore,run_bind_error (Metadata.run_call served)] at ran
    cases ran
  · have served : Metadata.serve t (.listLocators query.storeLocator.nameSpace query.storeLocator.name type) (env 0) =
        some (t,.ok []) := by
      rw [Metadata.serve_ok fails,Metadata.answer,List.filter_eq_nil_iff.mpr]
      intro row there found
      simp only [decide_eq_true_eq] at found
      exact absent row there found.1 found.2.1 found.2.2.1
    rw [doGetStore,run_bind_ok (Metadata.run_call served)] at ran
    cases ran
    rfl

private theorem mark_gone (types : OneType input.storeLocator s) {millis : ℕ} {row : StoreLocator}
    (there : row ∈ s.locators.map (input.storeLocator.mark millis)) (nameSpace : row.nameSpace = input.storeLocator.nameSpace) :
    row.status ≠ .NORMAL := by
  intro normal
  obtain ⟨before,member,rfl⟩ := List.mem_map.mp there
  have marks : input.storeLocator.Marks before (input.storeLocator.mark millis before) := mark_marks types member
  by_cases selected : input.storeLocator.selects before
  · obtain ⟨name,marked⟩ := marks.1 selected
    rw [marked] at normal
    cases normal
  · have kept := marks.2 selected
    rw [kept] at nameSpace normal
    exact selected ⟨nameSpace,normal,.inr (types before member nameSpace normal)⟩

/-- A request for all names deletes what it selects exactly when every store of the namespace
has the type that is given and the index takes the new names. -/
theorem delete_all_exact (all : input.storeLocator.name = "*") (works : ∀ n, (env n).outcome ≠ .failed) :
    DeletesAll input s env ↔ OneType input.storeLocator s ∧ Renamable input.storeLocator s (env 0).millis := by
  constructor
  · rintro ⟨t,n,store,ran,deletes⟩
    rw [doDeleteStore_all all works] at ran
    obtain ⟨distinct,updated⟩ | ⟨-,updated⟩ := update_cases (s := s) (input.storeLocator.mark (env 0).millis)
    · rw [updated] at ran
      cases ran
      have types : OneType input.storeLocator s := by
        intro row there nameSpace normal
        have each := List.forall₂_map_right_iff.mp deletes.locators
        exact types_of_marks (List.forall₂_same.mp each row there) nameSpace normal
      exact ⟨types,(renamable_iff types).mp distinct⟩
    · rw [updated] at ran
      cases ran
  · rintro ⟨types,renamable⟩
    have ran := doDeleteStore_all (s := s) all works
    obtain ⟨-,updated⟩ | ⟨doubled,-⟩ := update_cases (s := s) (input.storeLocator.mark (env 0).millis)
    · rw [updated] at ran
      refine ⟨_,_,_,ran,?_,rfl,?_⟩
      · exact List.forall₂_map_right_iff.mpr (List.forall₂_same.mpr fun row there => mark_marks types there)
      · intro row there selected query nameSpace name env' u m got found
        refine doGetStore_none (fun other member same _ => ?_) found
        exact mark_gone types member (same.trans (nameSpace.trans selected.1))
    · exact absurd ((renamable_iff types).mpr renamable) doubled

end

/-- A request for all names of the namespace `n`. -/
def allOf (storeType : String) : ErStore := ⟨⟨-1,storeType,"n","*","",0,0,0,0⟩,[],[]⟩

def oneStore (storeType : String) : Metadata :=
  { Metadata.empty with locators := [⟨0,storeType,"n","a","",1,0,0,0,.NORMAL⟩], nextId := 1 }

/-- Two stores go; the one of the other namespace and the one that is deleted already stay. -/
theorem delete_all_exact_same : DeletesAll (allOf "LMDB")
    { Metadata.empty with
      locators := [⟨0,"LMDB","n","a","",1,0,0,0,.NORMAL⟩,⟨1,"IN_MEMORY","m","a","",1,0,0,0,.NORMAL⟩,
        ⟨2,"LMDB","n","b","",1,0,0,0,.NORMAL⟩,⟨3,"IN_MEMORY","n","c","",1,0,0,0,.DELETED⟩]
      nextId := 4 } fun _ => {} := by
  refine (delete_all_exact rfl fun _ => by decide).mpr ⟨?_,?_⟩
  · unfold OneType
    decide
  · unfold Renamable
    decide

/-- With the selector `*` nothing is deleted, and with the name of one type stores of another. -/
theorem delete_all_reversed : ¬ DeletesAll (allOf "*") (oneStore "LMDB") (fun _ => {}) ∧
    ¬ DeletesAll (allOf "IN_MEMORY") (oneStore "LMDB") fun _ => {} := by
  constructor
  · rintro ⟨t,n,store,ran,deletes⟩
    cases ran
    have marks := (List.forall₂_cons.mp deletes.locators).1
    obtain ⟨name,marked⟩ := marks.1 (by decide)
    cases congrArg StoreLocator.status marked
  · rintro ⟨t,n,store,ran,deletes⟩
    cases ran
    have marks := (List.forall₂_cons.mp deletes.locators).1
    cases congrArg StoreLocator.status (marks.2 (by decide))

end Eggroll.StoreCrud
