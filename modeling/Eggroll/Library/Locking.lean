import Mathlib.Logic.Hydra
import Eggroll.Library.Answers
import Eggroll.Library.ReentrantLock

/-! Programs that take reentrant locks in order and give them back in the order opposite to it.
Among such programs nobody waits in a circle: what has begun comes to its end, however the
calls are served, and then nobody owns a lock. -/
namespace Library

namespace System
variable {σ ι : Type}

/-- However the system goes on, it comes to the goal. -/
inductive Inevitable (S : System σ ι) (goal : σ → Prop) : σ → Prop
  | now {s : σ} (there : goal s) : Inevitable S goal s
  | later {s : σ} (enabled : ∃ a t, S.step s a = some t)
      (each : ∀ a t, S.step s a = some t → Inevitable S goal t) : Inevitable S goal s

variable {S : System σ ι} {P goal : σ → Prop} {r : σ → σ → Prop}

theorem inevitable (wf : WellFounded r) (preserved : ∀ s a t, P s → S.step s a = some t → P t)
    (lowers : ∀ s a t, P s → S.step s a = some t → r t s) (moves : ∀ s, P s → goal s ∨ ∃ a t, S.step s a = some t)
    {s : σ} (initial : P s) : S.Inevitable goal s := by
  induction s using wf.induction with
  | _ s ih =>
    obtain there | enabled := moves s initial
    · exact .now there
    · exact .later enabled fun a t stepped =>
        ih t (lowers s a t initial stepped) (preserved s a t initial stepped)

theorem Inevitable.run {s : σ} (comes : S.Inevitable goal s) : ∃ labels t, S.Run s labels t ∧ goal t := by
  induction comes with
  | @now s there => exact ⟨[],s,run_nil S s,there⟩
  | @later s enabled each ih =>
    obtain ⟨a,t,stepped⟩ := enabled
    obtain ⟨labels,u,run,there⟩ := ih a t stepped
    exact ⟨a :: labels,u,(run_cons_iff S s u a labels).mpr ⟨t,stepped,run⟩,there⟩

/-- A system that sees the steps of another one, with finitely many of its own between two of these,
comes to its goal where the other one does. -/
theorem Inevitable.refines {τ κ : Type} {T : System τ κ} {f : σ → τ} {there : τ → Prop} (wf : WellFounded r)
    (preserved : ∀ s a t, P s → S.step s a = some t → P t)
    (matched : ∀ s a t, P s → S.step s a = some t → (∃ b, T.step (f s) b = some (f t)) ∨ f t = f s ∧ r t s)
    (moves : ∀ s, P s → (∃ b u, T.step (f s) b = some u) → ∃ a t, S.step s a = some t)
    (arrives : ∀ s, P s → there (f s) → goal s) {u : τ} (comes : T.Inevitable there u) {s : σ} (is : f s = u)
    (initial : P s) : S.Inevitable goal s := by
  induction comes generalizing s with
  | now reached => exact .now (arrives s initial (is ▸ reached))
  | @later u enabled _ ih =>
    -- where the other system stands still `r` gets lower
    induction s using wf.induction with
    | _ s still =>
      refine .later (moves s initial (is ▸ enabled)) fun a t stepped => ?_
      have kept := preserved s a t initial stepped
      obtain ⟨b,seen⟩ | ⟨same,lower⟩ := matched s a t initial stepped
      · exact ih b (f t) (is ▸ seen) rfl kept
      · exact still t lower (same.trans is) kept

end System

/-- What a call does to the locks. -/
inductive LockAct (κ : Type)
  | acquire (key : κ)
  | release (key : κ)
deriving Repr, DecidableEq

namespace Program
variable {Op ε α β κ : Type} {Ans : Op → Type}

section
variable (act : Op → Option (LockAct κ)) (level : κ → ℕ)

/-- A lock that is held may be taken again; another one is above all that are held. -/
def Above (held : List κ) (key : κ) : Prop := key ∈ held ∨ ∀ other ∈ held, level other < level key

/-- With the locks `held` the program goes on in order; the lock taken last is given back first.
`Q` is where it ends, with its result and the locks that it has then. -/
def Orderly (Q : Except ε α → List κ → Prop) : List κ → Program Op Ans ε α → Prop
  | held, ended result => Q result held
  | held, call op next =>
    match act op with
    | none => ∀ answer, (next answer).Orderly Q held
    | some (.acquire key) => Above level held key ∧ ∀ a, (next (.ok a)).Orderly Q (key :: held)
    | some (.release key) => ∃ rest, held = key :: rest ∧ ∀ a, (next (.ok a)).Orderly Q rest

/-- The program ends with the locks that it has begun with. -/
structure Balanced (A : α → Prop) (held : List κ) (p : Program Op Ans ε α) : Prop where
  orderly : p.Orderly act level (fun result rest => rest = held ∧ ∀ a, result = .ok a → A a) held

end

namespace Orderly
variable {act : Op → Option (LockAct κ)} {level : κ → ℕ} {Q : Except ε α → List κ → Prop}
  {R : Except ε β → List κ → Prop} {held : List κ}

theorem acquire {op : Op} {key : κ} (is : act op = some (.acquire key)) (above : Above level held key) :
    (Program.perform op : Program Op Ans ε (Ans op)).Orderly act level
      (fun result rest => rest = key :: held ∧ ∃ a, result = .ok a) held := by
  unfold Program.perform Orderly
  rw [is]
  exact ⟨above,fun a => ⟨rfl,a,rfl⟩⟩

theorem release {op : Op} {key : κ} (is : act op = some (.release key)) :
    (Program.perform op : Program Op Ans ε (Ans op)).Orderly act level
      (fun result rest => rest = held ∧ ∃ a, result = .ok a) (key :: held) := by
  unfold Program.perform Orderly
  rw [is]
  exact ⟨held,rfl,fun a => ⟨rfl,a,rfl⟩⟩

theorem andThen {p : Program Op Ans ε α} {f : Except ε α → Program Op Ans ε β} (orderly : p.Orderly act level Q held)
    (follows : ∀ result rest, Q result rest → (f result).Orderly act level R rest) :
    (p.andThen f).Orderly act level R held := by
  induction p generalizing held with
  | ended result => exact follows result held orderly
  | call op next ih =>
    unfold Orderly at orderly
    unfold Program.andThen Orderly
    cases is : act op with
    | none =>
      simp only [is] at orderly
      exact fun answer => ih answer (orderly answer)
    | some lockAct =>
      cases lockAct with
      | acquire key =>
        simp only [is] at orderly
        exact ⟨orderly.1,fun a => ih (.ok a) (orderly.2 a)⟩
      | release key =>
        simp only [is] at orderly
        obtain ⟨rest,top,later⟩ := orderly
        exact ⟨rest,top,fun a => ih (.ok a) (later a)⟩

theorem mono {Q' : Except ε α → List κ → Prop} {p : Program Op Ans ε α} (orderly : p.Orderly act level Q held)
    (weaker : ∀ result rest, Q result rest → Q' result rest) : p.Orderly act level Q' held := by
  have ends : (p.andThen Program.ended).Orderly act level Q' held := orderly.andThen weaker
  rwa [andThen_ended] at ends

theorem embed {Op' : Type} {Ans' : Op' → Type} {act' : Op' → Option (LockAct κ)} {f : Op → Op'}
    {g : (op : Op) → Ans' (f op) → Ans op} {p : Program Op Ans ε α} (orderly : p.Orderly act level Q held)
    (same : ∀ op, act' (f op) = act op) : (p.embed f g).Orderly act' level Q held := by
  induction p generalizing held with
  | ended result => exact orderly
  | call op next ih =>
    unfold Orderly at orderly
    unfold Program.embed Orderly
    rw [same]
    cases is : act op with
    | none =>
      simp only [is] at orderly
      exact fun answer => ih _ (orderly _)
    | some lockAct =>
      cases lockAct with
      | acquire key =>
        simp only [is] at orderly
        exact ⟨orderly.1,fun a => ih _ (orderly.2 (g op a))⟩
      | release key =>
        simp only [is] at orderly
        obtain ⟨rest,top,later⟩ := orderly
        exact ⟨rest,top,fun a => ih _ (later (g op a))⟩

end Orderly

namespace Balanced
variable {act : Op → Option (LockAct κ)} {level : κ → ℕ} {A : α → Prop} {B : β → Prop} {held : List κ} {key : κ}

theorem pure {a : α} (holds : A a) : (Pure.pure a : Program Op Ans ε α).Balanced act level A held := by
  refine ⟨rfl,?_⟩
  rintro _ ⟨⟩
  exact holds

theorem raise {e : ε} : (Program.raise e : Program Op Ans ε α).Balanced act level A held := ⟨rfl,nofun⟩

theorem of_makes {P : Op → Prop} {p : Program Op Ans ε α} (makes : p.Makes P A) (others : ∀ op, P op → act op = none) :
    p.Balanced act level A held := by
  induction p with
  | ended result =>
    cases result with
    | ok a => exact pure makes
    | error e => exact raise
  | call op next ih =>
    refine ⟨?_⟩
    unfold Orderly
    rw [others op makes.1]
    exact fun answer => (ih answer (makes.2 answer)).orderly

theorem andThen {p : Program Op Ans ε α} {f : Except ε α → Program Op Ans ε β} (balanced : p.Balanced act level A held)
    (follows : ∀ a, A a → (f (.ok a)).Balanced act level B held) (raises : ∀ e, (f (.error e)).Balanced act level B held) :
    (p.andThen f).Balanced act level B held := by
  refine ⟨balanced.orderly.andThen ?_⟩
  rintro result _ ⟨rfl,holds⟩
  cases result with
  | ok a => exact (follows a (holds a rfl)).orderly
  | error e => exact (raises e).orderly

theorem bind {p : Program Op Ans ε α} {f : α → Program Op Ans ε β} (balanced : p.Balanced act level A held)
    (follows : ∀ a, A a → (f a).Balanced act level B held) : (p >>= f).Balanced act level B held :=
  balanced.andThen follows fun _ => raise

theorem mono {A' : α → Prop} {p : Program Op Ans ε α} (balanced : p.Balanced act level A held)
    (weaker : ∀ a, A a → A' a) : p.Balanced act level A' held :=
  ⟨balanced.orderly.mono fun _ _ ends => ⟨ends.1,fun a is => weaker a (ends.2 a is)⟩⟩

section
variable {γ : Type} {first : Program Op Ans ε γ} {p : Program Op Ans ε α} {last : Program Op Ans ε Unit}
  (opens : first.Orderly act level (fun result rest => rest = key :: held ∧ ∃ a, result = .ok a) held)
  (balanced : p.Balanced act level A (key :: held))
  (closes : last.Orderly act level (fun result rest => rest = held ∧ ∃ a, result = .ok a) (key :: held))
include balanced closes

theorem closing : (p.tryFinally last).Orderly act level
    (fun result rest => rest = held ∧ ∀ a, result = .ok a → A a) (key :: held) := by
  refine balanced.orderly.andThen ?_
  rintro result _ ⟨rfl,holds⟩
  refine closes.andThen ?_
  rintro _ _ ⟨rfl,a,rfl⟩
  exact ⟨rfl,holds⟩

include opens

theorem guarded : (first >>= fun _ => p.tryFinally last).Balanced act level A held := by
  refine ⟨opens.andThen ?_⟩
  rintro _ _ ⟨rfl,a,rfl⟩
  exact closing balanced closes

theorem guardedInside : ((first >>= fun _ => p).tryFinally last).Balanced act level A held := by
  rw [tryFinally,bind_eq,andThen_assoc]
  refine ⟨opens.andThen ?_⟩
  rintro _ _ ⟨rfl,a,rfl⟩
  exact closing balanced closes

end
end Balanced

/-- What is left of a program after its next call. -/
inductive Left : Program Op Ans ε α → Program Op Ans ε α → Prop
  | answered (op : Op) (next : Except ε (Ans op) → Program Op Ans ε α) (answer : Except ε (Ans op)) :
      Left (next answer) (call op next)

theorem left_wf : WellFounded (Left : Program Op Ans ε α → Program Op Ans ε α → Prop) := by
  refine ⟨fun p => ?_⟩
  induction p with
  | ended result => exact .intro _ nofun
  | call op next ih =>
    refine .intro _ fun q left => ?_
    cases left with
    | answered _ _ answer => exact ih answer

end Program

/-- Where the locks are in the data, and what the calls do to them: a call that takes a lock
waits until it is free, and no other call waits. -/
structure Locks {σ Op ε Env κ : Type} {Ans : Op → Type} [DecidableEq κ] (act : Op → Option (LockAct κ))
    (lockOf : σ → κ → ReentrantLock ℕ) (serve : ℕ → Service σ Op Ans ε Env) : Prop where
  acquire : ∀ {op key}, act op = some (.acquire key) → ∀ id s env,
    (∀ lock, (lockOf s key).lock id = some lock →
      ∃ t a, serve id s op env = some (t,.ok a) ∧ lockOf t = Function.update (lockOf s) key lock) ∧
    ((lockOf s key).lock id = none → serve id s op env = none)
  release : ∀ {op key}, act op = some (.release key) → ∀ id s env lock, (lockOf s key).unlock id = some lock →
    ∃ t a, serve id s op env = some (t,.ok a) ∧ lockOf t = Function.update (lockOf s) key lock
  other : ∀ {op}, act op = none → ∀ id s env, ∃ t answer, serve id s op env = some (t,answer) ∧ lockOf t = lockOf s

namespace Pool
open Program
variable {σ Req Op ε Env α κ : Type} {Ans : Op → Type} [DecidableEq κ]

/-- What the requests hold: each goes on in order from there, and one that has not begun or has
ended holds nothing. -/
structure Locked (act : Op → Option (LockAct κ)) (level : κ → ℕ) (lockOf : σ → κ → ReentrantLock ℕ)
    (p : Pool σ Req Op Ans ε α) (held : ℕ → List κ) : Prop where
  idle : ∀ id, p.calls id = none → held id = []
  orderly : ∀ id request program, p.calls id = some (request,program) →
    program.Orderly act level (fun _ rest => rest = []) (held id)
  counts : ∀ id key, (lockOf p.shared key).holdCount id = (held id).count key

section
variable {act : Op → Option (LockAct κ)} {level : κ → ℕ} {lockOf : σ → κ → ReentrantLock ℕ}
  {serve : ℕ → Service σ Op Ans ε Env} {start : σ → Prop} {program : Req → Program Op Ans ε α}
  {p q : Pool σ Req Op Ans ε α} {held : ℕ → List κ} {id : ℕ} {request : Req} {key : κ}

theorem Locked.unfinished (locked : p.Locked act level lockOf held) (own : (lockOf p.shared key).owner = some id) :
    ∃ request op next, p.calls id = some (request,.call op next) ∧ key ∈ held id := by
  have mem : key ∈ held id := by
    rw [← List.count_pos_iff,← locked.counts]
    exact ReentrantLock.holdCount_pos.mpr own
  cases calling : p.calls id with
  | none =>
    rw [locked.idle id calling] at mem
    cases mem
  | some pair =>
    obtain ⟨request,prog⟩ := pair
    cases prog with
    | ended result =>
      have none_ : held id = [] := locked.orderly id request _ calling
      rw [none_] at mem
      cases mem
    | call op next => exact ⟨request,op,next,rfl,mem⟩

theorem Locked.released (locked : p.Locked act level lockOf held)
    (ended : ∀ id request program, p.calls id = some (request,program) → ∃ result, program = .ended result)
    (key : κ) : (lockOf p.shared key).owner = none := by
  cases own : (lockOf p.shared key).owner with
  | none => rfl
  | some id =>
    obtain ⟨request,op,next,calling,-⟩ := locked.unfinished own
    obtain ⟨result,is⟩ := ended id request _ calling
    cases is

theorem Locked.moved (locked : p.Locked act level lockOf held) {t : σ} {rest : List κ} {next : Program Op Ans ε α}
    (orderly : next.Orderly act level (fun _ rest => rest = []) rest)
    (own : ∀ key, (lockOf t key).holdCount id = rest.count key)
    (others : ∀ other, other ≠ id → ∀ key, (lockOf t key).holdCount other = (lockOf p.shared key).holdCount other) :
    Locked act level lockOf (⟨t,Function.update p.calls id (some (request,next))⟩ : Pool σ Req Op Ans ε α)
      (Function.update held id rest) := by
  refine ⟨fun i none_yet => ?_,fun i req prog here => ?_,fun i key => ?_⟩
  · dsimp only at none_yet
    by_cases same : i = id
    · subst same
      simp at none_yet
    · rw [Function.update_of_ne same] at none_yet ⊢
      exact locked.idle i none_yet
  · dsimp only at here
    by_cases same : i = id
    · subst same
      rw [Function.update_self] at here ⊢
      cases here
      exact orderly
    · rw [Function.update_of_ne same] at here ⊢
      exact locked.orderly i req prog here
  · by_cases same : i = id
    · subst same
      rw [Function.update_self]
      exact own key
    · rw [Function.update_of_ne same,← locked.counts]
      exact others i same key

theorem holdCount_update (locks : κ → ReentrantLock ℕ) (lock : ReentrantLock ℕ) (other : κ) (id : ℕ) :
    (Function.update locks key lock other).holdCount id =
      if other = key then lock.holdCount id else (locks other).holdCount id := by
  by_cases same : other = key
  · subst same
    simp
  · rw [Function.update_of_ne same,if_neg same]

theorem Locked.acquired (locked : p.Locked act level lockOf held) {t : σ} {lock : ReentrantLock ℕ}
    {next : Program Op Ans ε α} (orderly : next.Orderly act level (fun _ rest => rest = []) (key :: held id))
    (taken : (lockOf p.shared key).lock id = some lock) (is : lockOf t = Function.update (lockOf p.shared) key lock) :
    Locked act level lockOf (⟨t,Function.update p.calls id (some (request,next))⟩ : Pool σ Req Op Ans ε α)
      (Function.update held id (key :: held id)) := by
  have count (other : ℕ) (k : κ) : (lockOf t k).holdCount other =
      (lockOf p.shared k).holdCount other + if k = key ∧ other = id then 1 else 0 := by
    rw [is,holdCount_update]
    by_cases same : k = key
    · subst same
      simp [ReentrantLock.lock_holdCount taken other]
    · simp [same]
  refine locked.moved orderly (fun k => ?_) fun other different k => ?_
  · rw [count,locked.counts,List.count_cons]
    by_cases same : k = key
    · simp [same]
    · simp [same,Ne.symm same]
  · simp [count,different]

theorem Locked.gaveBack (locked : p.Locked act level lockOf held) {t : σ} {lock : ReentrantLock ℕ} {rest : List κ}
    {next : Program Op Ans ε α} (orderly : next.Orderly act level (fun _ rest => rest = []) rest)
    (top : held id = key :: rest) (given : (lockOf p.shared key).unlock id = some lock)
    (is : lockOf t = Function.update (lockOf p.shared) key lock) :
    Locked act level lockOf (⟨t,Function.update p.calls id (some (request,next))⟩ : Pool σ Req Op Ans ε α)
      (Function.update held id rest) := by
  have count (other : ℕ) (k : κ) : (lockOf t k).holdCount other + (if k = key ∧ other = id then 1 else 0) =
      (lockOf p.shared k).holdCount other := by
    rw [is,holdCount_update]
    by_cases same : k = key
    · subst same
      simpa using ReentrantLock.unlock_holdCount given other
    · simp [same]
  refine locked.moved orderly (fun k => ?_) fun other different k => ?_
  · have before := locked.counts id k
    rw [top,List.count_cons,← count id k] at before
    by_cases same : k = key
    · simpa [same] using before
    · simpa [same,Ne.symm same] using before
  · simpa [different] using count other k

theorem Locked.givesBack (locked : p.Locked act level lockOf held) {rest : List κ} (top : held id = key :: rest) :
    ∃ lock, (lockOf p.shared key).unlock id = some lock := by
  rw [← Option.isSome_iff_exists,ReentrantLock.unlock_isSome,locked.counts,top]
  simp

theorem Locked.releases (locked : p.Locked act level lockOf held) {op : Op} {next : Except ε (Ans op) → Program Op Ans ε α}
    (calling : p.calls id = some (request,.call op next)) (is : act op = some (.release key)) :
    (lockOf p.shared key).owner = some id := by
  have here := locked.orderly id request _ calling
  unfold Orderly at here
  simp only [is] at here
  obtain ⟨rest,top,-⟩ := here
  obtain ⟨lock,given⟩ := locked.givesBack top
  exact (ReentrantLock.unlock_owner given).1

theorem Locked.step (locks : Locks act lockOf serve)
    (programs : ∀ request, (program request).Orderly act level (fun _ rest => rest = []) [])
    (locked : p.Locked act level lockOf held) {a : Act Req Env} (stepped : (system start program serve).step p a = some q) :
    ∃ held, q.Locked act level lockOf held := by
  cases a with
  | invoke id request =>
    simp only [system] at stepped
    split at stepped
    case h_2 => cases stepped
    case h_1 idle =>
      cases stepped
      have own (key : κ) : (lockOf p.shared key).holdCount id = ([] : List κ).count key := by
        rw [locked.counts,locked.idle id idle]
      exact ⟨_,locked.moved (programs request) own fun _ _ _ => rfl⟩
  | step id env =>
    simp only [system] at stepped
    split at stepped
    case h_2 => cases stepped
    case h_1 request op next calling =>
      have here := locked.orderly id request _ calling
      unfold Orderly at here
      split at stepped
      case h_2 => cases stepped
      case h_1 t answer served =>
        cases stepped
        cases is : act op with
        | none =>
          simp only [is] at here
          obtain ⟨_,_,served',same⟩ := locks.other is id p.shared env
          cases served.symm.trans served'
          refine ⟨_,locked.moved (here answer) (fun key => ?_) fun _ _ _ => ?_⟩
          · rw [same,locked.counts]
          · rw [same]
        | some lockAct =>
          cases lockAct with
          | acquire key =>
            simp only [is] at here
            obtain ⟨goes,waits⟩ := locks.acquire is id p.shared env
            cases taken : (lockOf p.shared key).lock id with
            | none => cases served.symm.trans (waits taken)
            | some lock =>
              obtain ⟨_,_,served',moved⟩ := goes lock taken
              cases served.symm.trans served'
              exact ⟨_,locked.acquired (here.2 _) taken moved⟩
          | release key =>
            simp only [is] at here
            obtain ⟨rest,top,later⟩ := here
            obtain ⟨lock,given⟩ := locked.givesBack top
            obtain ⟨_,_,served',moved⟩ := locks.release is id p.shared env lock given
            cases served.symm.trans served'
            exact ⟨_,locked.gaveBack (later _) top given moved⟩

/-- A request can go on, or it waits for a lock above all of its own that another one holds. -/
theorem Locked.goes_or_waits (locks : Locks act lockOf serve) (locked : p.Locked act level lockOf held) {op : Op}
    {next : Except ε (Ans op) → Program Op Ans ε α} (calling : p.calls id = some (request,.call op next)) (env : Env) :
    (∃ t, (system start program serve).step p (.step id env) = some t) ∨
      ∃ key j request op next, (∀ own ∈ held id, level own < level key) ∧
        p.calls j = some (request,.call op next) ∧ key ∈ held j := by
  have goes (served : ∃ t answer, serve id p.shared op env = some (t,answer)) :
      ∃ t, (system start program serve).step p (.step id env) = some t := by
    obtain ⟨t,answer,served⟩ := served
    exact ⟨⟨t,Function.update p.calls id (some (request,next answer))⟩,by simp only [system,calling,served]⟩
  have here := locked.orderly id request _ calling
  unfold Orderly at here
  cases is : act op with
  | none =>
    obtain ⟨t,answer,served,-⟩ := locks.other is id p.shared env
    exact .inl (goes ⟨t,answer,served⟩)
  | some lockAct =>
    cases lockAct with
    | release key =>
      simp only [is] at here
      obtain ⟨rest,top,-⟩ := here
      obtain ⟨lock,given⟩ := locked.givesBack top
      obtain ⟨t,a,served,-⟩ := locks.release is id p.shared env lock given
      exact .inl (goes ⟨t,_,served⟩)
    | acquire key =>
      simp only [is] at here
      cases taken : (lockOf p.shared key).lock id with
      | some lock =>
        obtain ⟨t,a,served,-⟩ := (locks.acquire is id p.shared env).1 lock taken
        exact .inl (goes ⟨t,_,served⟩)
      | none =>
        obtain ⟨owned,other⟩ := ReentrantLock.lock_waits taken
        obtain ⟨j,own⟩ := Option.ne_none_iff_exists'.mp owned
        obtain ⟨req,o,n,calls,mem⟩ := locked.unfinished own
        refine .inr ⟨key,j,req,o,n,?_,calls,mem⟩
        refine here.1.resolve_left fun mine => other ?_
        rwa [← List.count_pos_iff,← locked.counts,ReentrantLock.holdCount_pos] at mine

theorem Locked.moves (locks : Locks act lockOf serve) {levels : ℕ} (bounded : ∀ key, level key < levels)
    (locked : p.Locked act level lockOf held) {op : Op} {next : Except ε (Ans op) → Program Op Ans ε α}
    (calling : p.calls id = some (request,.call op next)) (env : Env) :
    ∃ id t, (system start program serve).step p (.step id env) = some t := by
  have holder (above : ℕ) : ∀ i req o n key, p.calls i = some (req,.call o n) → key ∈ held i →
      levels ≤ level key + above → ∃ id t, (system start program serve).step p (.step id env) = some t := by
    induction above with
    | zero =>
      intro _ _ _ _ key _ _ high
      have := bounded key
      omega
    | succ above ih =>
      intro i req o n key calls mem high
      obtain ⟨t,stepped⟩ | ⟨key',j,req',o',n',higher,calls',mem'⟩ := locked.goes_or_waits locks calls env
      · exact ⟨i,t,stepped⟩
      · have := higher key mem
        exact ih j req' o' n' key' calls' mem' (by omega)
  obtain ⟨t,stepped⟩ | ⟨key,j,req,o,n,-,calls,mem⟩ := locked.goes_or_waits locks calling env
  · exact ⟨id,t,stepped⟩
  · exact holder levels j req o n key calls mem (by omega)

def serving (_ : Pool σ Req Op Ans ε α) : Act Req Env → Bool
  | .invoke _ _ => false
  | .step _ _ => true

def Quiet (p : Pool σ Req Op Ans ε α) : Prop :=
  ∀ id request program, p.calls id = some (request,program) → ∃ result, program = .ended result

/-- A request after its next call. -/
inductive Later : Option (Req × Program Op Ans ε α) → Option (Req × Program Op Ans ε α) → Prop
  | next {request : Req} {q p : Program Op Ans ε α} (left : Left q p) : Later (some (request,q)) (some (request,p))

theorem later_wf : WellFounded (Later : Option (Req × Program Op Ans ε α) → Option (Req × Program Op Ans ε α) → Prop) := by
  refine ⟨fun o => ?_⟩
  cases o with
  | none => exact .intro _ nofun
  | some pair =>
    obtain ⟨request,p⟩ := pair
    induction p using left_wf.induction with
    | _ p ih =>
      refine .intro _ fun o later => ?_
      cases later with
      | next left => exact ih _ left

/-- What is left of the requests among `ids`. -/
def ahead (ids : Finset ℕ) (p : Pool σ Req Op Ans ε α) : Multiset (Option (Req × Program Op Ans ε α)) :=
  ids.val.map p.calls

theorem ahead_update (ids : Finset ℕ) (mem : id ∈ ids) (s t : σ) (calls : ℕ → Option (Req × Program Op Ans ε α))
    (new : Option (Req × Program Op Ans ε α)) :
    ahead ids ⟨t,Function.update calls id new⟩ = (ids.erase id).val.map calls + {new} ∧
      ahead ids ⟨s,calls⟩ = (ids.erase id).val.map calls + {calls id} := by
  have split : ids.val = id ::ₘ (ids.erase id).val := by
    rw [Finset.erase_val,Multiset.cons_erase mem]
  simp only [ahead]
  rw [split,Multiset.map_cons,Multiset.map_cons,Function.update_self]
  refine ⟨?_,by rw [add_comm,Multiset.singleton_add]⟩
  rw [add_comm,Multiset.singleton_add]
  refine congrArg (new ::ₘ ·) (Multiset.map_congr rfl fun i mem => Function.update_of_ne ?_ _ _)
  exact (Finset.mem_erase.mp mem).1

theorem step_ahead {ids : Finset ℕ} (outside : ∀ id, id ∉ ids → p.calls id = none) {env : Env}
    (stepped : (system start program serve).step p (.step id env) = some q) :
    (∀ id, id ∉ ids → q.calls id = none) ∧ Relation.CutExpand Later (ahead ids q) (ahead ids p) := by
  simp only [system] at stepped
  split at stepped
  case h_2 => cases stepped
  case h_1 request op next calling =>
    split at stepped
    case h_2 => cases stepped
    case h_1 t answer served =>
      cases stepped
      have mem : id ∈ ids := by
        by_contra other
        rw [outside id other] at calling
        cases calling
      refine ⟨fun i other => ?_,?_⟩
      · dsimp only
        have different : i ≠ id := by
          rintro rfl
          exact other mem
        rw [Function.update_of_ne different]
        exact outside i other
      · obtain ⟨after,before⟩ := ahead_update ids mem p.shared t p.calls (some (request,next answer))
        rw [after,before,calling]
        exact Relation.cutExpand_add_single _ (.next (.answered op next answer))

theorem finite_calls (reached : (system start program serve).Reachable p) :
    ∃ ids : Finset ℕ, ∀ id, id ∉ ids → p.calls id = none := by
  apply reached.invariant
  · rintro _ ⟨-,idle⟩
    exact ⟨∅,fun id _ => idle id⟩
  · rintro p a q ⟨ids,outside⟩ stepped
    refine ⟨insert a.id ids,fun id other => ?_⟩
    rw [Finset.mem_insert,not_or] at other
    rw [step_others stepped (Ne.symm other.1)]
    exact outside id other.2

theorem Locked.reachable (locks : Locks act lockOf serve)
    (programs : ∀ request, (program request).Orderly act level (fun _ rest => rest = []) [])
    (free : ∀ s, start s → ∀ key, lockOf s key = .new) (reached : (system start program serve).Reachable p) :
    ∃ held, p.Locked act level lockOf held := by
  apply reached.invariant
  · rintro p ⟨started,idle⟩
    refine ⟨fun _ => [],fun _ _ => rfl,fun id request program calling => ?_,fun id key => ?_⟩
    · rw [idle id] at calling
      cases calling
    · rw [free _ started]
      rfl
  · rintro p a q ⟨held,locked⟩ stepped
    exact locked.step locks programs stepped

/-- However the calls of the requests that have come in are served, all of them end, and then no
lock has an owner. -/
theorem inevitable_quiet (env : Env) (locks : Locks act lockOf serve) {levels : ℕ} (bounded : ∀ key, level key < levels)
    (programs : ∀ request, (program request).Orderly act level (fun _ rest => rest = []) [])
    (free : ∀ s, start s → ∀ key, lockOf s key = .new) (reached : (system start program serve).Reachable p) :
    ((system start program serve).restrict serving).Inevitable
      (fun q => q.Quiet ∧ ∀ key, (lockOf q.shared key).owner = none) p := by
  obtain ⟨ids,outside⟩ := finite_calls reached
  refine System.inevitable (P := fun p => (∃ held, p.Locked act level lockOf held) ∧ ∀ id, id ∉ ids → p.calls id = none)
    (InvImage.wf (ahead ids) later_wf.cutExpand) ?_ ?_ ?_ ⟨Locked.reachable locks programs free reached,outside⟩
  · rintro p a q ⟨⟨held,locked⟩,outside⟩ stepped
    obtain ⟨served,stepped⟩ := (System.restrict_step_iff _ _ _ _ _).mp stepped
    cases a with
    | invoke id request => cases served
    | step id env => exact ⟨locked.step locks programs stepped,(step_ahead outside stepped).1⟩
  · rintro p a q ⟨-,outside⟩ stepped
    obtain ⟨served,stepped⟩ := (System.restrict_step_iff _ _ _ _ _).mp stepped
    cases a with
    | invoke id request => cases served
    | step id env => exact (step_ahead outside stepped).2
  · rintro p ⟨⟨held,locked⟩,-⟩
    by_cases quiet : p.Quiet
    · exact .inl ⟨quiet,locked.released quiet⟩
    · obtain ⟨id,request,prog,calling,unfinished⟩ : ∃ id request prog, p.calls id = some (request,prog) ∧
          ¬ ∃ result, prog = .ended result := by
        simpa only [Quiet,not_forall,exists_prop] using quiet
      cases prog with
      | ended result => exact absurd ⟨result,rfl⟩ unfinished
      | call op next =>
        obtain ⟨id,t,stepped⟩ : ∃ id t, (system start program serve).step p (.step id env) = some t :=
          locked.moves locks bounded calling env
        exact .inr ⟨.step id env,t,(System.restrict_step_iff _ _ _ _ _).mpr ⟨rfl,stepped⟩⟩

end
end Pool
end Library
