import Eggroll.Library.Program

/-! What a program does as long as its calls are answered in a certain way, programs where there
are more calls, and what follows among others when a history tells how calls were answered. -/
namespace Library
namespace Program
variable {σ Op ε Env α β : Type} {Ans : Op → Type}

/-- As long as `A` holds of the answers, every call of the program is one of these, and so is
its result. -/
def Heeds (A : (op : Op) → Ans op → Prop) (P : Op → Prop) (Q : α → Prop) : Program Op Ans ε α → Prop
  | ended (.ok a) => Q a
  | ended (.error _) => True
  | call op next =>
    P op ∧ (∀ a, A op a → (next (.ok a)).Heeds A P Q) ∧ ∀ e, (next (.error e)).Heeds A P Q

namespace Heeds
variable {A : (op : Op) → Ans op → Prop} {P : Op → Prop} {Q : α → Prop} {R : β → Prop}

theorem pure {a : α} (holds : Q a) : (Pure.pure a : Program Op Ans ε α).Heeds A P Q := holds

theorem raise {e : ε} : (Program.raise e : Program Op Ans ε α).Heeds A P Q := trivial

theorem perform {op : Op} (one : P op) : (Program.perform op : Program Op Ans ε (Ans op)).Heeds A P (A op) :=
  ⟨one,fun _ answered => answered,fun _ => trivial⟩

theorem andThen {p : Program Op Ans ε α} {f : Except ε α → Program Op Ans ε β} (heeds : p.Heeds A P Q)
    (follows : ∀ a, Q a → (f (.ok a)).Heeds A P R) (raises : ∀ e, (f (.error e)).Heeds A P R) :
    (p.andThen f).Heeds A P R := by
  induction p with
  | ended result =>
    cases result with
    | ok a => exact follows a heeds
    | error e => exact raises e
  | call op next ih =>
    obtain ⟨one,answered,failed⟩ := heeds
    exact ⟨one,fun a is => ih (.ok a) (answered a is),fun e => ih (.error e) (failed e)⟩

theorem bind {p : Program Op Ans ε α} {f : α → Program Op Ans ε β} (heeds : p.Heeds A P Q)
    (follows : ∀ a, Q a → (f a).Heeds A P R) : (p >>= f).Heeds A P R :=
  heeds.andThen follows fun _ => raise

theorem tryFinally {p : Program Op Ans ε α} {last : Program Op Ans ε Unit} (heeds : p.Heeds A P Q)
    (finally_ : last.Heeds A P fun _ => True) : (p.tryFinally last).Heeds A P Q :=
  heeds.andThen (fun _ holds => finally_.andThen (fun _ _ => holds) fun _ => raise) fun _ =>
    finally_.andThen (fun _ _ => trivial) fun _ => raise

theorem mono {Q' : α → Prop} {p : Program Op Ans ε α} (heeds : p.Heeds A P Q) (weaker : ∀ a, Q a → Q' a) :
    p.Heeds A P Q' := by
  induction p with
  | ended result =>
    cases result with
    | ok a => exact weaker a heeds
    | error e => trivial
  | call op next ih =>
    obtain ⟨one,answered,failed⟩ := heeds
    exact ⟨one,fun a is => ih (.ok a) (answered a is),fun e => ih (.error e) (failed e)⟩

theorem of_makes {P' : Op → Prop} {p : Program Op Ans ε α} (makes : p.Makes P' Q) (calls : ∀ op, P' op → P op) :
    p.Heeds A P Q := by
  induction p with
  | ended result =>
    cases result with
    | ok a => exact makes
    | error e => trivial
  | call op next ih =>
    exact ⟨calls op makes.1,fun a _ => ih (.ok a) (makes.2 _),fun e => ih (.error e) (makes.2 _)⟩

end Heeds

variable {Op' : Type} {Ans' : Op' → Type}

def embed (f : Op → Op') (g : (op : Op) → Ans' (f op) → Ans op) : Program Op Ans ε α → Program Op' Ans' ε α
  | ended result => ended result
  | call op next => call (f op) fun answer => (next (answer.map (g op))).embed f g

theorem Heeds.embed {f : Op → Op'} {g : (op : Op) → Ans' (f op) → Ans op} {A : (op : Op) → Ans op → Prop}
    {P : Op → Prop} {A' : (op : Op') → Ans' op → Prop} {P' : Op' → Prop} {Q : α → Prop} {p : Program Op Ans ε α}
    (heeds : p.Heeds A P Q) (answers : ∀ op a, A' (f op) a → A op (g op a)) (calls : ∀ op, P op → P' (f op)) :
    (p.embed f g).Heeds A' P' Q := by
  induction p with
  | ended result =>
    cases result with
    | ok a => exact heeds
    | error e => trivial
  | call op next ih =>
    obtain ⟨one,answered,failed⟩ := heeds
    exact ⟨calls op one,fun a is => ih _ (answered _ (answers op a is)),fun e => ih _ (failed e)⟩

/-- A history that only gets more tells of each kind whether all answers so far were of it. A
program that heeds each of these kinds makes no other call while the kind L. -/
theorem Heeds.sat {κ : Type} {C : Contract σ} {serve : Service σ Op Ans ε Env} {A : κ → (op : Op) → Ans op → Prop}
    {P : κ → Op → Prop} {Q : α → Prop} {L : κ → σ → Prop} {p : Program Op Ans ε α} {s : σ}
    (before : ∀ k s t, C.rely s t → L k t → L k s)
    (each : ∀ s op env t answer, C.invariant s → (∀ k, L k s → P k op) → serve s op env = some (t,answer) →
      C.invariant t ∧ C.guarantee s t ∧ ∀ k, L k t → L k s ∧ ∀ a, answer = .ok a → A k op a)
    (heeds : ∀ k, L k s → p.Heeds (A k) (P k) Q) : p.Sat C serve (fun _ _ => True) s := by
  induction p generalizing s with
  | ended result => exact fun _ _ _ => trivial
  | call op next ih =>
    intro t moved inv env u answer served
    have calls (k : κ) (here : L k t) : P k op := (heeds k (before k s t moved here)).1
    obtain ⟨inv',guaranteed,later⟩ := each t op env u answer inv calls served
    refine ⟨inv',guaranteed,ih answer fun k here => ?_⟩
    obtain ⟨earlier,answered⟩ := later k here
    obtain ⟨-,goes,fails⟩ := heeds k (before k s t moved earlier)
    cases answer with
    | ok a => exact goes a (answered a rfl)
    | error e => exact fails e

end Program

namespace Pool
variable {σ Req Op ε Env α : Type} {Ans : Op → Type} {invariant : σ → Prop} {C : ℕ → Program.Contract σ}
  {fresh : ℕ → σ → Prop} {serve : ℕ → Service σ Op Ans ε Env} {Q : ℕ → Req → Except ε α → σ → Prop}
  {start : σ → Prop} {program : Req → Program Op Ans ε α} {p q : Pool σ Req Op Ans ε α} {act : Act Req Env}

theorem Kept.guaranteed (fit : Fit invariant C fresh) (kept : Kept invariant C fresh serve Q p)
    (stepped : (system start program serve).step p act = some q) :
    q.shared = p.shared ∨ ∃ id, (C id).guarantee p.shared q.shared := by
  cases act with
  | invoke id request =>
    simp only [system] at stepped
    split at stepped
    case h_1 =>
      cases stepped
      exact .inl rfl
    case h_2 => cases stepped
  | step id env =>
    simp only [system] at stepped
    split at stepped
    case h_2 => cases stepped
    case h_1 request op next calling =>
      split at stepped
      case h_2 => cases stepped
      case h_1 t answer served =>
        cases stepped
        have inv : (C id).invariant p.shared := by rw [fit.same]; exact kept.invariant
        exact .inr ⟨id,(kept.sat id request _ calling p.shared ((C id).refl _) inv env t answer served).2.1⟩

end Pool
end Library
