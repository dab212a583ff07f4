import Mathlib.Data.List.Forall2

/-! Loops over lists: the item that comes next, steps that may raise and what a run that has
not raised has gone through, such a function applied to every item in turn. -/
namespace Library
variable {α β ε : Type} {f : α → Except ε β} {items : List α}

theorem of_drop_eq_cons {k : ℕ} {item : α} {rest : List α} (these : items.drop k = item :: rest) :
    items[k]? = some item ∧ items.drop (k + 1) = rest := by
  constructor
  · rw [← Nat.add_zero k,← List.getElem?_drop,these]
    rfl
  · rw [← List.drop_drop,these]
    rfl

theorem set_same {k : ℕ} {item : α} (there : items[k]? = some item) : items.set k item = items := by
  obtain ⟨within,rfl⟩ := List.getElem?_eq_some_iff.mp there
  exact List.set_getElem_self within

theorem ok_of_bind {x : Except ε α} {b : β} (done : (x >>= f) = .ok b) : ∃ a, x = .ok a ∧ f a = .ok b := by
  cases x with
  | error e => cases done
  | ok a => exact ⟨a,rfl,done⟩

theorem mapM_ok {results : List β} :
    items.mapM f = .ok results ↔ List.Forall₂ (fun x y => f x = .ok y) items results := by
  induction items generalizing results with
  | nil => simp [List.mapM_nil,pure,Except.pure,eq_comm]
  | cons item rest ih =>
    rw [List.mapM_cons]
    cases first : f item with
    | error e =>
      simp [bind,Except.bind,List.forall₂_cons_left_iff,first]
    | ok y =>
      cases others : rest.mapM f with
      | error e =>
        have failed (ys : List β) : ¬ List.Forall₂ (fun x y => f x = .ok y) rest ys := by
          rw [← ih,others]
          simp
        simp [bind,Except.bind,List.forall₂_cons_left_iff,first,failed]
      | ok ys =>
        have only (ys' : List β) : List.Forall₂ (fun x y => f x = .ok y) rest ys' ↔ ys' = ys := by
          rw [← ih,others]
          simp [eq_comm]
        simp [bind,Except.bind,pure,Except.pure,List.forall₂_cons_left_iff,first,only,eq_comm]

theorem mapM_returns (returns : ∀ x ∈ items, ∃ y, f x = .ok y) : ∃ results, items.mapM f = .ok results := by
  simp only [mapM_ok]
  induction items with
  | nil => exact ⟨[],.nil⟩
  | cons item rest ih =>
    obtain ⟨⟨y,first⟩,others⟩ := List.forall_mem_cons.mp returns
    obtain ⟨ys,later⟩ := ih others
    exact ⟨y :: ys,.cons first later⟩

end Library
