import Mathlib.Logic.Function.Basic
import Eggroll.Library.System

/-! Programs that act on shared data by calls, each at one moment, alone or among others.
What a program does among others is proved of it alone: between its calls it relies on what
every other program guarantees of its own. -/
namespace Library

/-- A program ends with a result or an exception, or it makes a call and goes on with what
the call has answered. -/
inductive Program (Op : Type) (Ans : Op → Type) (ε α : Type)
  | ended (result : Except ε α)
  | call (op : Op) (next : Except ε (Ans op) → Program Op Ans ε α)

/-- What calls do to the data. `Env` is what decides where several things can happen; a call
that has to wait is not served. -/
abbrev Service (σ Op : Type) (Ans : Op → Type) (ε Env : Type) :=
  σ → (op : Op) → Env → Option (σ × Except ε (Ans op))

/-- The same service in an environment that makes a call only where it is allowed. -/
def Service.restrict {σ Op ε Env : Type} {Ans : Op → Type} (serve : Service σ Op Ans ε Env)
    (allowed : σ → Op → Env → Bool) : Service σ Op Ans ε Env :=
  fun s op env => if allowed s op env then serve s op env else none

namespace Program
variable {σ Op ε Env α β : Type} {Ans : Op → Type}

def andThen : Program Op Ans ε α → (Except ε α → Program Op Ans ε β) → Program Op Ans ε β
  | ended result, f => f result
  | call op next, f => call op fun answer => (next answer).andThen f

def perform (op : Op) : Program Op Ans ε (Ans op) := call op ended

def raise (e : ε) : Program Op Ans ε α := ended (.error e)

/-- What follows a result; an exception is passed on. -/
def onward (f : α → Program Op Ans ε β) : Except ε α → Program Op Ans ε β
  | .ok a => f a
  | .error e => raise e

instance : Monad (Program Op Ans ε) where
  pure a := ended (.ok a)
  bind p f := p.andThen (onward f)

/-- `try p finally last`. -/
def tryFinally (p : Program Op Ans ε α) (last : Program Op Ans ε Unit) : Program Op Ans ε α :=
  p.andThen fun result => last.andThen (onward fun _ => ended result)

theorem bind_eq (p : Program Op Ans ε α) (f : α → Program Op Ans ε β) : p >>= f = p.andThen (onward f) := rfl

theorem pure_eq (a : α) : (pure a : Program Op Ans ε α) = ended (.ok a) := rfl

theorem andThen_assoc {γ : Type} (p : Program Op Ans ε α) (f : Except ε α → Program Op Ans ε β)
    (g : Except ε β → Program Op Ans ε γ) : (p.andThen f).andThen g = p.andThen fun result => (f result).andThen g := by
  induction p with
  | ended result => rfl
  | call op next ih => exact congrArg (call op) (funext ih)

theorem andThen_ended (p : Program Op Ans ε α) : p.andThen ended = p := by
  induction p with
  | ended result => rfl
  | call op next ih => exact congrArg (call op) (funext ih)

instance : LawfulMonad (Program Op Ans ε) := by
  refine LawfulMonad.mk' _ (fun p => ?_) (fun _ _ => rfl) fun p f g => ?_
  · refine Eq.trans ?_ (andThen_ended p)
    exact congrArg p.andThen (funext fun result => by cases result <;> rfl)
  · simp only [bind_eq,andThen_assoc]
    exact congrArg p.andThen (funext fun result => by cases result <;> rfl)

/-- A run without others: the data, the number of calls made so far and the result. -/
def run (serve : Service σ Op Ans ε Env) (env : ℕ → Env) :
    Program Op Ans ε α → σ → ℕ → Option (σ × ℕ × Except ε α)
  | ended result, s, n => some (s,n,result)
  | call op next, s, n =>
    match serve s op (env n) with
    | none => none
    | some (t,answer) => (next answer).run serve env t (n + 1)

theorem run_andThen (serve : Service σ Op Ans ε Env) (env : ℕ → Env) (p : Program Op Ans ε α)
    (f : Except ε α → Program Op Ans ε β) (s : σ) (n : ℕ) :
    (p.andThen f).run serve env s n = (p.run serve env s n).bind fun end_ => (f end_.2.2).run serve env end_.1 end_.2.1 := by
  induction p generalizing s n with
  | ended result => rfl
  | call op next ih =>
    rw [andThen,run,run]
    cases serve s op (env n) with
    | none => rfl
    | some served => exact ih served.2 served.1 (n + 1)

theorem run_total {serve : Service σ Op Ans ε Env} (total : ∀ s op e, (serve s op e).isSome = true)
    (env : ℕ → Env) (p : Program Op Ans ε α) (s : σ) (n : ℕ) : (p.run serve env s n).isSome = true := by
  induction p generalizing s n with
  | ended result => rfl
  | call op next ih =>
    obtain ⟨served,answered⟩ := Option.isSome_iff_exists.mp (total s op (env n))
    rw [run,answered]
    exact ih served.2 served.1 (n + 1)

section
variable {serve : Service σ Op Ans ε Env} {env : ℕ → Env} {s t : σ} {n m : ℕ}

theorem run_bind_ok {p : Program Op Ans ε α} {a : α} {f : α → Program Op Ans ε β}
    (ran : p.run serve env s n = some (t,m,.ok a)) : (p >>= f).run serve env s n = (f a).run serve env t m := by
  rw [bind_eq,run_andThen,ran]
  rfl

theorem run_bind_error {p : Program Op Ans ε α} {e : ε} {f : α → Program Op Ans ε β}
    (ran : p.run serve env s n = some (t,m,.error e)) : (p >>= f).run serve env s n = some (t,m,.error e) := by
  rw [bind_eq,run_andThen,ran]
  rfl

theorem run_perform {op : Op} {answer : Except ε (Ans op)} (served : serve s op (env n) = some (t,answer)) :
    (perform op).run serve env s n = some (t,n + 1,answer) := by
  simp only [perform,run,served]

end

/-- What a program keeps up, what it relies on between its calls and what it guarantees of
each of them. -/
structure Contract (σ : Type) where
  invariant : σ → Prop
  rely : σ → σ → Prop
  guarantee : σ → σ → Prop
  refl : ∀ s, rely s s
  trans : ∀ {s t u}, rely s t → rely t u → rely s u

def Contract.alone (invariant : σ → Prop) : Contract σ where
  invariant := invariant
  rely s t := s = t
  guarantee _ _ := True
  refl _ := rfl
  trans := Eq.trans

/-- From here on the program keeps its contract, and it ends only where `Q` holds. -/
def Sat (C : Contract σ) (serve : Service σ Op Ans ε Env) (Q : Except ε α → σ → Prop) :
    Program Op Ans ε α → σ → Prop
  | ended result, s => ∀ t, C.rely s t → C.invariant t → Q result t
  | call op next, s => ∀ t, C.rely s t → C.invariant t → ∀ env u answer,
      serve t op env = some (u,answer) → C.invariant u ∧ C.guarantee t u ∧ (next answer).Sat C serve Q u

namespace Sat
variable {C : Contract σ} {serve : Service σ Op Ans ε Env} {Q : Except ε α → σ → Prop}

theorem stable {p : Program Op Ans ε α} {s t : σ} (sat : p.Sat C serve Q s) (moved : C.rely s t) :
    p.Sat C serve Q t := by
  cases p with
  | ended result => exact fun u later => sat u (C.trans moved later)
  | call op next => exact fun u later => sat u (C.trans moved later)

theorem andThen {P : Except ε β → σ → Prop} {p : Program Op Ans ε α} {f : Except ε α → Program Op Ans ε β}
    {s : σ} (sat : p.Sat C serve Q s) (kept : C.invariant s)
    (follows : ∀ result t, C.invariant t → Q result t → (f result).Sat C serve P t) :
    (p.andThen f).Sat C serve P s := by
  induction p generalizing s with
  | ended result => exact follows result s kept (sat s (C.refl s) kept)
  | call op next ih =>
    intro t moved inv env u answer served
    obtain ⟨inv',guaranteed,rest⟩ := sat t moved inv env u answer served
    exact ⟨inv',guaranteed,ih answer rest inv'⟩

theorem ended {s : σ} {result : Except ε α} (kept : ∀ s t, C.rely s t → Q result s → Q result t) (holds : Q result s) :
    (Program.ended result : Program Op Ans ε α).Sat C serve Q s := fun t moved _ => kept s t moved holds

theorem perform {A : σ → Prop} {op : Op} {Q : Except ε (Ans op) → σ → Prop} {s : σ}
    (stable : ∀ s t, C.rely s t → A s → A t) (kept : ∀ answer s t, C.rely s t → Q answer s → Q answer t)
    (holds : A s) (served : ∀ t env u answer, C.invariant t → A t → serve t op env = some (u,answer) →
      C.invariant u ∧ C.guarantee t u ∧ Q answer u) :
    (Program.perform op : Program Op Ans ε (Ans op)).Sat C serve Q s := by
  intro t moved inv env u answer step
  obtain ⟨inv',guaranteed,ends⟩ := served t env u answer inv (stable s t moved holds) step
  exact ⟨inv',guaranteed,fun v later _ => kept answer u v later ends⟩

theorem bind {P : Except ε β → σ → Prop} {p : Program Op Ans ε α} {f : α → Program Op Ans ε β} {s : σ}
    (sat : p.Sat C serve Q s) (kept : C.invariant s)
    (follows : ∀ a t, C.invariant t → Q (.ok a) t → (f a).Sat C serve P t)
    (raises : ∀ e t, C.invariant t → Q (.error e) t → (raise e : Program Op Ans ε β).Sat C serve P t) :
    (p >>= f).Sat C serve P s := by
  refine sat.andThen kept fun result t inv holds => ?_
  cases result with
  | ok a => exact follows a t inv holds
  | error e => exact raises e t inv holds

theorem mono {P : Except ε α → σ → Prop} {p : Program Op Ans ε α} {s : σ} (sat : p.Sat C serve Q s)
    (weaker : ∀ result t, C.invariant t → Q result t → P result t) : p.Sat C serve P s := by
  induction p generalizing s with
  | ended result => exact fun t moved inv => weaker result t inv (sat t moved inv)
  | call op next ih =>
    intro t moved inv env u answer served
    obtain ⟨inv',guaranteed,rest⟩ := sat t moved inv env u answer served
    exact ⟨inv',guaranteed,ih answer rest⟩

/-- Without others a program that keeps its contract keeps the invariant to its end. -/
theorem run {p : Program Op Ans ε α} {s t : σ} {env : ℕ → Env} {n m : ℕ} {result : Except ε α}
    (sat : p.Sat C serve Q s) (kept : C.invariant s) (ran : p.run serve env s n = some (t,m,result)) :
    C.invariant t ∧ Q result t := by
  induction p generalizing s n with
  | ended result =>
    cases ran
    exact ⟨kept,sat _ (C.refl _) kept⟩
  | call op next ih =>
    rw [Program.run] at ran
    cases served : serve s op (env n) with
    | none => simp [served] at ran
    | some pair =>
      rw [served] at ran
      obtain ⟨inv,-,rest⟩ := sat s (C.refl s) kept (env n) pair.1 pair.2 served
      exact ih pair.2 rest inv ran

end Sat

def Contract.Stable (C : Contract σ) (A : σ → Prop) : Prop := ∀ s t, C.rely s t → A s → A t

/-- An assertion for each result, and one for exceptions. -/
def Ends (A : α → σ → Prop) (E : σ → Prop) : Except ε α → σ → Prop
  | .ok a => A a
  | .error _ => E

abbrev Does (C : Contract σ) (serve : Service σ Op Ans ε Env) (p : Program Op Ans ε α) (A : α → σ → Prop)
    (E : σ → Prop) (s : σ) : Prop := p.Sat C serve (Ends A E) s

theorem Contract.Stable.and {C : Contract σ} {A B : σ → Prop} (first : C.Stable A) (second : C.Stable B) :
    C.Stable fun s => A s ∧ B s :=
  fun s t moved holds => ⟨first s t moved holds.1,second s t moved holds.2⟩

theorem Contract.Stable.ex {C : Contract σ} {A : β → σ → Prop} (each : ∀ b, C.Stable (A b)) :
    C.Stable fun s => ∃ b, A b s := by
  rintro s t moved ⟨b,holds⟩
  exact ⟨b,each b s t moved holds⟩

theorem Contract.Stable.or {C : Contract σ} {A B : σ → Prop} (first : C.Stable A) (second : C.Stable B) :
    C.Stable fun s => A s ∨ B s :=
  fun s t moved holds => holds.imp (first s t moved) (second s t moved)

theorem Contract.Stable.const {C : Contract σ} (p : Prop) : C.Stable fun _ => p := fun _ _ _ => id

namespace Does
variable {C : Contract σ} {serve : Service σ Op Ans ε Env} {A : α → σ → Prop} {B : β → σ → Prop} {E : σ → Prop} {s : σ}

theorem pure {a : α} (stable : C.Stable (A a)) (holds : A a s) :
    Does C serve (Pure.pure a : Program Op Ans ε α) A E s := fun t moved _ => stable s t moved holds

theorem raise {e : ε} (stable : C.Stable E) (holds : E s) :
    Does C serve (Program.raise e : Program Op Ans ε α) A E s := fun t moved _ => stable s t moved holds

theorem perform {op : Op} {P : σ → Prop} {A : Ans op → σ → Prop} (stable : C.Stable P)
    (stables : ∀ a, C.Stable (A a)) (stableE : C.Stable E) (holds : P s)
    (served : ∀ t env u answer, C.invariant t → P t → serve t op env = some (u,answer) →
      C.invariant u ∧ C.guarantee t u ∧ Ends A E answer u) :
    Does C serve (Program.perform op : Program Op Ans ε (Ans op)) A E s := by
  refine Sat.perform stable (fun answer s t moved ends => ?_) holds served
  cases answer with
  | ok a => exact stables a s t moved ends
  | error e => exact stableE s t moved ends

theorem bind {p : Program Op Ans ε α} {f : α → Program Op Ans ε β} (does : Does C serve p A E s)
    (inv : C.invariant s) (stable : C.Stable E)
    (follows : ∀ a t, C.invariant t → A a t → Does C serve (f a) B E t) : Does C serve (p >>= f) B E s :=
  Sat.bind does inv follows fun _ _ _ holds => raise stable holds

theorem tryFinally {p : Program Op Ans ε α} {last : Program Op Ans ε Unit} {A' : α → σ → Prop} {E' : σ → Prop}
    (does : Does C serve p A E s) (inv : C.invariant s) (stable : ∀ a, C.Stable (A' a)) (stableE : C.Stable E')
    (follows : ∀ a t, C.invariant t → A a t → Does C serve last (fun _ => A' a) E' t)
    (raised : ∀ t, C.invariant t → E t → Does C serve last (fun _ => E') E' t) :
    Does C serve (p.tryFinally last) A' E' s := by
  refine Sat.andThen does inv fun result t inv holds => ?_
  cases result with
  | ok a =>
    refine Sat.andThen (follows a t inv holds) inv fun result u inv holds => ?_
    cases result with
    | ok _ => exact pure (stable a) holds
    | error e => exact raise stableE holds
  | error e =>
    refine Sat.andThen (raised t inv holds) inv fun result u inv holds => ?_
    cases result with
    | ok _ => exact raise stableE holds
    | error e => exact raise stableE holds

theorem mono {A' : α → σ → Prop} {E' : σ → Prop} {p : Program Op Ans ε α} (does : Does C serve p A E s)
    (weaker : ∀ a t, C.invariant t → A a t → A' a t) (raises : ∀ t, C.invariant t → E t → E' t) :
    Does C serve p A' E' s := by
  refine Sat.mono does fun result t inv holds => ?_
  cases result with
  | ok a => exact weaker a t inv holds
  | error e => exact raises t inv holds

end Does

def Makes (P : Op → Prop) (Q : α → Prop) : Program Op Ans ε α → Prop
  | ended (.ok a) => Q a
  | ended (.error _) => True
  | call op next => P op ∧ ∀ answer, (next answer).Makes P Q

namespace Makes
variable {P : Op → Prop} {Q : α → Prop} {R : β → Prop}

theorem pure {a : α} (holds : Q a) : (Pure.pure a : Program Op Ans ε α).Makes P Q := holds

theorem raise {e : ε} : (Program.raise e : Program Op Ans ε α).Makes P Q := trivial

theorem perform {op : Op} (one : P op) : (Program.perform op : Program Op Ans ε (Ans op)).Makes P fun _ => True :=
  ⟨one,fun answer => by cases answer <;> exact trivial⟩

theorem andThen {p : Program Op Ans ε α} {f : Except ε α → Program Op Ans ε β} (makes : p.Makes P Q)
    (follows : ∀ a, Q a → (f (.ok a)).Makes P R) (raises : ∀ e, (f (.error e)).Makes P R) :
    (p.andThen f).Makes P R := by
  induction p with
  | ended result =>
    cases result with
    | ok a => exact follows a makes
    | error e => exact raises e
  | call op next ih => exact ⟨makes.1,fun answer => ih answer (makes.2 answer)⟩

theorem bind {p : Program Op Ans ε α} {f : α → Program Op Ans ε β} (makes : p.Makes P Q)
    (follows : ∀ a, Q a → (f a).Makes P R) : (p >>= f).Makes P R :=
  makes.andThen follows fun _ => raise

theorem tryFinally {p : Program Op Ans ε α} {last : Program Op Ans ε Unit} (makes : p.Makes P Q)
    (finally_ : last.Makes P fun _ => True) : (p.tryFinally last).Makes P Q :=
  makes.andThen (fun _ holds => finally_.andThen (fun _ _ => holds) fun _ => raise) fun _ =>
    finally_.andThen (fun _ _ => trivial) fun _ => raise

theorem mono {Q' : α → Prop} {p : Program Op Ans ε α} (makes : p.Makes P Q) (weaker : ∀ a, Q a → Q' a) :
    p.Makes P Q' := by
  induction p with
  | ended result =>
    cases result with
    | ok a => exact weaker a makes
    | error e => trivial
  | call op next ih => exact ⟨makes.1,fun answer => ih answer (makes.2 answer)⟩

/-- What every call of a kind keeps, a program that makes only such calls keeps. -/
theorem sat {C : Contract σ} {serve : Service σ Op Ans ε Env} {A : σ → Prop} {p : Program Op Ans ε α} {s : σ}
    (makes : p.Makes P Q) (stable : ∀ s t, C.rely s t → A s → A t)
    (each : ∀ op, P op → ∀ s env t answer, C.invariant s → A s → serve s op env = some (t,answer) →
      C.invariant t ∧ C.guarantee s t ∧ A t)
    (holds : A s) : p.Sat C serve (fun result t => A t ∧ ∀ a, result = .ok a → Q a) s := by
  induction p generalizing s with
  | ended result =>
    intro t moved _
    refine ⟨stable s t moved holds,?_⟩
    rintro a rfl
    exact makes
  | call op next ih =>
    intro t moved inv env u answer served
    obtain ⟨inv',guaranteed,after⟩ := each op makes.1 t env u answer inv (stable s t moved holds) served
    exact ⟨inv',guaranteed,ih answer (makes.2 answer) after⟩

end Makes
end Program

/-- Shared data and the programs of the requests that work on it. -/
structure Pool (σ Req Op : Type) (Ans : Op → Type) (ε α : Type) where
  shared : σ
  calls : ℕ → Option (Req × Program Op Ans ε α)

namespace Pool
variable {σ Req Op ε Env α : Type} {Ans : Op → Type}

inductive Act (Req Env : Type)
  | invoke (id : ℕ) (request : Req)
  | step (id : ℕ) (env : Env)
deriving Repr, DecidableEq

def Act.id {Req Env : Type} : Act Req Env → ℕ
  | .invoke id _ | .step id _ => id

/-- Requests come in at any time and their calls are served in any order. -/
def system (start : σ → Prop) (program : Req → Program Op Ans ε α) (serve : ℕ → Service σ Op Ans ε Env) :
    System (Pool σ Req Op Ans ε α) (Act Req Env) where
  start p := start p.shared ∧ ∀ id, p.calls id = none
  step p act :=
    match act with
    | .invoke id request =>
      match p.calls id with
      | none => some { p with calls := Function.update p.calls id (some (request,program request)) }
      | some _ => none
    | .step id env =>
      match p.calls id with
      | some (request,.call op next) =>
        match serve id p.shared op env with
        | some (t,answer) => some ⟨t,Function.update p.calls id (some (request,next answer))⟩
        | none => none
      | _ => none

def Ended (p : Pool σ Req Op Ans ε α) (id : ℕ) (request : Req) (result : Except ε α) : Prop :=
  p.calls id = some (request,.ended result)

def result (p : Pool σ Req Op Ans ε α) (id : ℕ) : Option (Req × Except ε α) :=
  match p.calls id with
  | some (request,.ended result) => some (request,result)
  | _ => none

theorem ended_of_result {p : Pool σ Req Op Ans ε α} {id : ℕ} {request : Req} {result : Except ε α}
    (given : p.result id = some (request,result)) : p.Ended id request result := by
  unfold Pool.result at given
  split at given
  case h_1 calling =>
    cases given
    exact calling
  case h_2 => cases given

section
variable {start : σ → Prop} {program : Req → Program Op Ans ε α} {serve : ℕ → Service σ Op Ans ε Env}
  {p q : Pool σ Req Op Ans ε α} {act : Act Req Env} {id : ℕ}

theorem step_others (stepped : (system start program serve).step p act = some q) (other : act.id ≠ id) :
    q.calls id = p.calls id := by
  cases act with
  | invoke i request =>
    simp only [system] at stepped
    split at stepped
    case h_1 =>
      cases stepped
      exact Function.update_of_ne (Ne.symm other) _ _
    case h_2 => cases stepped
  | step i env =>
    simp only [system] at stepped
    split at stepped
    case h_2 => cases stepped
    case h_1 =>
      split at stepped
      case h_1 =>
        cases stepped
        exact Function.update_of_ne (Ne.symm other) _ _
      case h_2 => cases stepped

theorem run_others {acts : List (Act Req Env)} (run : (system start program serve).Run p acts q)
    (others : ∀ act ∈ acts, act.id ≠ id) : q.calls id = p.calls id := by
  induction acts generalizing p with
  | nil => rw [(System.run_nil_iff _ p q).mp run]
  | cons act rest ih =>
    obtain ⟨next,stepped,tail⟩ := (System.run_cons_iff _ p q act rest).mp run
    obtain ⟨first,later⟩ := List.forall_mem_cons.mp others
    exact (ih tail later).trans (step_others stepped first)

end

/-- Contracts that fit together: what one program guarantees is what the others rely on. -/
structure Fit (invariant : σ → Prop) (C : ℕ → Program.Contract σ) (fresh : ℕ → σ → Prop) : Prop where
  same : ∀ id, (C id).invariant = invariant
  others : ∀ {i j s t}, i ≠ j → invariant s → invariant t → (C j).guarantee s t → (C i).rely s t
  fresh : ∀ {i s t}, (C i).rely s t → fresh i s → fresh i t

/-- The invariant holds and every request keeps its contract from where it stands. -/
structure Kept (invariant : σ → Prop) (C : ℕ → Program.Contract σ) (fresh : ℕ → σ → Prop)
    (serve : ℕ → Service σ Op Ans ε Env) (Q : ℕ → Req → Except ε α → σ → Prop)
    (p : Pool σ Req Op Ans ε α) : Prop where
  invariant : invariant p.shared
  fresh : ∀ id, p.calls id = none → fresh id p.shared
  sat : ∀ id request prog, p.calls id = some (request,prog) →
    prog.Sat (C id) (serve id) (Q id request) p.shared

variable {invariant : σ → Prop} {C : ℕ → Program.Contract σ} {fresh : ℕ → σ → Prop}
  {serve : ℕ → Service σ Op Ans ε Env} {Q : ℕ → Req → Except ε α → σ → Prop}
  {start : σ → Prop} {program : Req → Program Op Ans ε α}

theorem Kept.step (fit : Fit invariant C fresh) {p q : Pool σ Req Op Ans ε α} {act : Act Req Env}
    (spec : ∀ id request, act = .invoke id request → invariant p.shared → fresh id p.shared →
      (program request).Sat (C id) (serve id) (Q id request) p.shared)
    (kept : Kept invariant C fresh serve Q p)
    (stepped : (system start program serve).step p act = some q) : Kept invariant C fresh serve Q q := by
  cases act with
  | invoke id request =>
    simp only [system] at stepped
    split at stepped
    case h_2 => cases stepped
    case h_1 idle =>
      cases stepped
      refine ⟨kept.invariant,fun i none_yet => ?_,fun i req prog here => ?_⟩
      · dsimp only at none_yet
        by_cases same : i = id
        · subst same
          simp at none_yet
        · rw [Function.update_of_ne same] at none_yet
          exact kept.fresh i none_yet
      · dsimp only at here
        by_cases same : i = id
        · subst same
          rw [Function.update_self] at here
          cases here
          exact spec i _ rfl kept.invariant (kept.fresh i idle)
        · rw [Function.update_of_ne same] at here
          exact kept.sat i req prog here
  | step id env =>
    simp only [system] at stepped
    split at stepped
    case h_2 => cases stepped
    case h_1 request op next calling =>
      split at stepped
      case h_2 => cases stepped
      case h_1 t answer served =>
        cases stepped
        have inv : (C id).invariant p.shared := by rw [fit.same]; exact kept.invariant
        obtain ⟨inv',guaranteed,rest⟩ :=
          kept.sat id request _ calling p.shared ((C id).refl _) inv env t answer served
        have inv_t : invariant t := by rw [← fit.same id]; exact inv'
        have moved : ∀ i, i ≠ id → (C i).rely p.shared t := fun i other =>
          fit.others other kept.invariant inv_t guaranteed
        refine ⟨inv_t,fun i none_yet => ?_,fun i req prog here => ?_⟩
        · dsimp only at none_yet
          by_cases same : i = id
          · subst same
            simp at none_yet
          · rw [Function.update_of_ne same] at none_yet
            exact fit.fresh (moved i same) (kept.fresh i none_yet)
        · dsimp only at here
          by_cases same : i = id
          · subst same
            rw [Function.update_self] at here
            cases here
            exact rest
          · rw [Function.update_of_ne same] at here
            exact (kept.sat i req prog here).stable (moved i same)

theorem Kept.initial (initial : ∀ s, start s → invariant s ∧ ∀ id, fresh id s)
    {p : Pool σ Req Op Ans ε α} (started : start p.shared) (idle : ∀ id, p.calls id = none) :
    Kept invariant C fresh serve Q p := by
  refine ⟨(initial _ started).1,fun id _ => (initial _ started).2 id,fun id request prog here => ?_⟩
  rw [idle id] at here
  cases here

theorem Kept.reachable (fit : Fit invariant C fresh)
    (initial : ∀ s, start s → invariant s ∧ ∀ id, fresh id s)
    (spec : ∀ id request s, invariant s → fresh id s →
      (program request).Sat (C id) (serve id) (Q id request) s)
    {p : Pool σ Req Op Ans ε α} (reached : (system start program serve).Reachable p) :
    Kept invariant C fresh serve Q p := by
  apply reached.invariant
  · rintro _ ⟨started,idle⟩
    exact Kept.initial initial started idle
  · intro _ _ _ kept stepped
    exact Kept.step fit (fun id request _ => spec id request _) kept stepped

/-- The same where only some requests are admitted, each where the run stands. -/
theorem Kept.admitted (fit : Fit invariant C fresh) {allowed : Pool σ Req Op Ans ε α → Act Req Env → Bool}
    (initial : ∀ s, start s → invariant s ∧ ∀ id, fresh id s)
    (spec : ∀ p id request, allowed p (.invoke id request) = true → invariant p.shared → fresh id p.shared →
      (program request).Sat (C id) (serve id) (Q id request) p.shared)
    {p : Pool σ Req Op Ans ε α} (reached : ((system start program serve).restrict allowed).Reachable p) :
    Kept invariant C fresh serve Q p := by
  apply reached.invariant
  · rintro _ ⟨started,idle⟩
    exact Kept.initial initial started idle
  · intro p act _ kept stepped
    obtain ⟨admitted,stepped⟩ := (System.restrict_step_iff _ _ _ _ _).mp stepped
    refine Kept.step fit (fun id request is => spec p id request ?_) kept stepped
    rw [← is]
    exact admitted

theorem Kept.restricted (fit : Fit invariant C fresh) {allowed : Pool σ Req Op Ans ε α → Act Req Env → Bool}
    (initial : ∀ s, start s → invariant s ∧ ∀ id, fresh id s)
    (spec : ∀ id request s, (∃ p, allowed p (.invoke id request) = true) → invariant s → fresh id s →
      (program request).Sat (C id) (serve id) (Q id request) s)
    {p : Pool σ Req Op Ans ε α} (reached : ((system start program serve).restrict allowed).Reachable p) :
    Kept invariant C fresh serve Q p :=
  Kept.admitted fit initial (fun p id request is => spec id request _ ⟨p,is⟩) reached

theorem Kept.ended (fit : Fit invariant C fresh) {p : Pool σ Req Op Ans ε α} {id : ℕ} {request : Req}
    {result : Except ε α} (kept : Kept invariant C fresh serve Q p) (ended : p.Ended id request result) :
    Q id request result p.shared := by
  have inv : (C id).invariant p.shared := by rw [fit.same]; exact kept.invariant
  exact kept.sat id request _ ended p.shared ((C id).refl _) inv

end Pool
end Library
