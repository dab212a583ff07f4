import Mathlib.Data.List.Basic

/-! Calls that are made one after another up to the first that fails. What comes of the
call with number `n` is `env n`. -/
namespace Library.Attempt

universe u v w
variable {κ : Type u} {ο : Type v} {σ : Type w} (ok : κ → ο → Bool) (env : ℕ → ο)

def attempt (act : σ → κ → ο → σ) : ℕ → List κ → σ → σ × Bool
  | _, [], s => (s,true)
  | n, call :: rest, s =>
    if ok call (env n) then attempt act (n + 1) rest (act s call (env n)) else (act s call (env n),false)

def made : ℕ → List κ → List (κ × ο)
  | _, [] => []
  | n, call :: rest => (call,env n) :: if ok call (env n) then made (n + 1) rest else []

def left : ℕ → List κ → List κ
  | _, [] => []
  | n, call :: rest => if ok call (env n) then left (n + 1) rest else call :: rest

variable {ok} {env}

theorem attempt_eq (act : σ → κ → ο → σ) (n : ℕ) (calls : List κ) (s : σ) : attempt ok env act n calls s =
    ((made ok env n calls).foldl (fun s made => act s made.1 made.2) s,(left ok env n calls).isEmpty) := by
  induction calls generalizing n s with
  | nil => rfl
  | cons call rest ih =>
    rw [attempt,made,left,List.foldl_cons]
    split
    · exact ih (n + 1) _
    · rfl

theorem left_suffix (n : ℕ) (calls : List κ) : left ok env n calls <:+ calls := by
  induction calls generalizing n with
  | nil => exact List.suffix_refl _
  | cons call rest ih =>
    rw [left]
    split
    · exact (ih (n + 1)).trans (List.suffix_cons call rest)
    · exact List.suffix_refl _

theorem made_subset {n : ℕ} {calls : List κ} {call : κ × ο} (member : call ∈ made ok env n calls) : call.1 ∈ calls := by
  induction calls generalizing n with
  | nil => cases member
  | cons first rest ih =>
    rw [made,List.mem_cons] at member
    obtain rfl | later := member
    · exact List.mem_cons_self
    · split at later
      · exact List.mem_cons_of_mem _ (ih later)
      · cases later

theorem mem_left {n : ℕ} {calls : List κ} {call : κ} (member : call ∈ calls) (fails : ∀ o, ok call o = false) :
    call ∈ left ok env n calls := by
  induction calls generalizing n with
  | nil => cases member
  | cons first rest ih =>
    rw [left]
    split
    · rename_i fine
      obtain rfl | later := List.mem_cons.mp member
      · rw [fails] at fine
        cases fine
      · exact ih later
    · exact member

/-- Where the calls that go well do what `ideal` does to the view of the state, and the one that
fails does nothing to a part of it, this part is as the calls before the failure make it. -/
theorem fold_made {τ : Type*} {ρ : Type*} (act : σ → κ → ο → σ) (view : σ → τ) (ideal : τ → κ → τ) (part : τ → ρ)
    (fine : ∀ s call o, ok call o = true → view (act s call o) = ideal (view s) call)
    (n : ℕ) (calls : List κ) (s : σ)
    (fails : ∀ s, ∀ call ∈ left ok env n calls, ∀ o, ok call o = false → part (view (act s call o)) = part (view s)) :
    ∃ done, calls = done ++ left ok env n calls ∧
      part (view ((made ok env n calls).foldl (fun s made => act s made.1 made.2) s)) = part (done.foldl ideal (view s)) := by
  induction calls generalizing n s with
  | nil => exact ⟨[],rfl,rfl⟩
  | cons call rest ih =>
    rw [left] at fails ⊢
    rw [made,List.foldl_cons]
    split
    · rename_i good
      rw [if_pos good] at fails
      obtain ⟨done,split,same⟩ := ih (n + 1) (act s call (env n)) fails
      refine ⟨call :: done,congrArg (call :: ·) split,?_⟩
      rw [same,fine s call (env n) good,List.foldl_cons]
    · rename_i bad
      rw [if_neg bad] at fails
      exact ⟨[],rfl,fails s call List.mem_cons_self (env n) (by simpa using bad)⟩

end Library.Attempt
