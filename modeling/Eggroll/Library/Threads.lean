import Mathlib.Algebra.BigOperators.Group.List.Basic
import Mathlib.Algebra.Ring.Int.Defs
import Mathlib.Data.List.Forall2
import Eggroll.Library.Program

/-! Threads that start other threads. Each is a program on shared data; a thread may owe a
number of units that the data count, and what is counted is what all threads owe. -/
namespace Library

/-- The data and the threads in the order in which they were started. -/
structure Threads (σ Op : Type) (Ans : Op → Type) (ε α : Type) where
  shared : σ
  threads : List (Program Op Ans ε α)

namespace Threads
variable {σ Req Op ε Env α : Type} {Ans : Op → Type}

inductive Act (Req Env : Type)
  | invoke (request : Req)
  | step (thread : ℕ) (env : Env)
deriving Repr, DecidableEq

/-- Requests come in at any time, and threads take their steps in any order. A call that
returns starts the threads that `spawns` names. -/
def system (start : σ → Prop) (program : Req → Program Op Ans ε α) (spawns : Op → List (Program Op Ans ε α))
    (serve : Service σ Op Ans ε Env) : System (Threads σ Op Ans ε α) (Act Req Env) where
  start p := start p.shared ∧ p.threads = []
  step p act :=
    match act with
    | .invoke request => some { p with threads := p.threads ++ [program request] }
    | .step i env =>
      match p.threads[i]? with
      | some (.call op next) =>
        match serve p.shared op env with
        | some (t,.ok a) => some ⟨t,p.threads.set i (next (.ok a)) ++ spawns op⟩
        | some (t,.error e) => some ⟨t,p.threads.set i (next (.error e))⟩
        | none => none
      | _ => none

def Ended : Program Op Ans ε α → Prop
  | .ended _ => True
  | .call _ _ => False

section
variable {start : σ → Prop} {program : Req → Program Op Ans ε α} {spawns : Op → List (Program Op Ans ε α)}
  {serve : Service σ Op Ans ε Env} {p q : Threads σ Op Ans ε α} {act : Act Req Env}

theorem step_cases (stepped : (system start program spawns serve).step p act = some q) :
    (∃ request, act = .invoke request ∧ q = { p with threads := p.threads ++ [program request] }) ∨
      ∃ i env op next t answer, act = .step i env ∧ p.threads[i]? = some (.call op next) ∧
        serve p.shared op env = some (t,answer) ∧
        q = ⟨t,p.threads.set i (next answer) ++ if answer.toBool then spawns op else []⟩ := by
  cases act with
  | invoke request =>
    cases stepped
    exact .inl ⟨request,rfl,rfl⟩
  | step i env =>
    simp only [system] at stepped
    split at stepped
    case h_2 => cases stepped
    case h_1 op next at_i =>
      split at stepped
      case h_1 t a served =>
        cases stepped
        exact .inr ⟨i,env,op,next,t,.ok a,rfl,at_i,served,rfl⟩
      case h_2 t e served =>
        cases stepped
        exact .inr ⟨i,env,op,next,t,.error e,rfl,at_i,served,by simp [Except.toBool]⟩
      case h_3 => cases stepped

end

/-- Every thread owes what `Owes` says it may, and the data count all of it. -/
def Accounted (Owes : ℤ → Program Op Ans ε α → Prop) (count : σ → ℤ) (p : Threads σ Op Ans ε α) : Prop :=
  ∃ debts : List ℤ, List.Forall₂ Owes debts p.threads ∧ count p.shared = debts.sum

section
variable {Owes : ℤ → Program Op Ans ε α → Prop} {count : σ → ℤ} {p : Threads σ Op Ans ε α}

theorem Accounted.none {s : σ} (zero : count s = 0) : Accounted Owes count (⟨s,[]⟩ : Threads σ Op Ans ε α) :=
  ⟨[],.nil,zero⟩

theorem Accounted.owed (accounted : Accounted Owes count p) {i : ℕ} {prog : Program Op Ans ε α}
    (at_i : p.threads[i]? = some prog) : ∃ d, Owes d prog := by
  obtain ⟨debts,each,-⟩ := accounted
  obtain ⟨within,rfl⟩ := List.getElem?_eq_some_iff.mp at_i
  exact ⟨_,each.get (each.length_eq ▸ within) within⟩

theorem Accounted.append (accounted : Accounted Owes count p) {t : σ} {new : List (Program Op Ans ε α)}
    {debts : List ℤ} (owe : List.Forall₂ Owes debts new) (counted : count t = count p.shared + debts.sum) :
    Accounted Owes count ⟨t,p.threads ++ new⟩ := by
  obtain ⟨before,each,total⟩ := accounted
  refine ⟨before ++ debts,List.rel_append each owe,?_⟩
  rw [counted,total,List.sum_append]

theorem debts_set {debts : List ℤ} {threads : List (Program Op Ans ε α)} (each : List.Forall₂ Owes debts threads)
    {i : ℕ} {prog prog' : Program Op Ans ε α} (at_i : threads[i]? = some prog) {more : ℤ}
    (owe : ∀ d, Owes d prog → Owes (d + more) prog') :
    ∃ debts', List.Forall₂ Owes debts' (threads.set i prog') ∧ debts'.sum = debts.sum + more := by
  induction each generalizing i with
  | nil => simp at at_i
  | @cons d first debts rest owes others ih =>
    cases i with
    | zero =>
      cases at_i
      exact ⟨_,.cons (owe d owes) others,by rw [List.sum_cons,List.sum_cons]; omega⟩
    | succ i =>
      obtain ⟨debts',each',sum⟩ := ih at_i
      exact ⟨d :: debts',.cons owes each',by rw [List.sum_cons,List.sum_cons,sum]; omega⟩

/-- One thread goes on and may start others: what all of them owe changes as the data do. -/
theorem Accounted.step (accounted : Accounted Owes count p) {i : ℕ} {prog prog' : Program Op Ans ε α} {t : σ}
    (at_i : p.threads[i]? = some prog) (more : ℤ) (owe : ∀ d, Owes d prog → Owes (d + more) prog')
    {new : List (Program Op Ans ε α)} (debts : List ℤ) (begun : List.Forall₂ Owes debts new)
    (counted : count t = count p.shared + more + debts.sum) :
    Accounted Owes count ⟨t,p.threads.set i prog' ++ new⟩ := by
  obtain ⟨before,each,total⟩ := accounted
  obtain ⟨after,each',sum⟩ := debts_set each at_i owe
  refine ⟨after ++ debts,List.rel_append each' begun,?_⟩
  rw [List.sum_append,sum,counted,total]

theorem debts_eq {debts : List ℤ} {threads : List (Program Op Ans ε α)} (each : List.Forall₂ Owes debts threads)
    (amount : Program Op Ans ε α → ℤ) (definite : ∀ prog ∈ threads, ∀ d, Owes d prog → d = amount prog) :
    debts = threads.map amount := by
  induction each with
  | nil => rfl
  | cons owes _ ih =>
    obtain ⟨first,others⟩ := List.forall_mem_cons.mp definite
    rw [List.map_cons,← first _ owes,ih others]

/-- Where each thread owes a definite amount, the data count the sum of these amounts. -/
theorem Accounted.count_eq (accounted : Accounted Owes count p) (amount : Program Op Ans ε α → ℤ)
    (definite : ∀ prog ∈ p.threads, ∀ d, Owes d prog → d = amount prog) :
    count p.shared = (p.threads.map amount).sum := by
  obtain ⟨debts,each,total⟩ := accounted
  rw [total,debts_eq each amount definite]

end

end Threads
end Library
