import Mathlib.Data.List.Basic

/-! Labelled transition systems with computable steps. A label resolves every
choice of the scheduler and of the environment, so a finite run is a list of
labels and can be evaluated; invariants, restrictions of the scheduler and
forward simulations are stated over all such runs. -/
namespace Library

universe u v w x

structure System (σ : Type u) (ι : Type v) where
  start : σ → Prop
  step : σ → ι → Option σ

namespace System
variable {σ : Type u} {ι : Type v} {τ : Type w} {κ : Type x}

def exec (S : System σ ι) (s : σ) : List ι → Option σ
  | [] => some s
  | a :: labels => (S.step s a).bind (fun t => S.exec t labels)

def Run (S : System σ ι) (s : σ) (labels : List ι) (t : σ) : Prop := S.exec s labels = some t

def Reachable (S : System σ ι) (t : σ) : Prop := ∃ s labels, S.start s ∧ S.Run s labels t

theorem run_nil (S : System σ ι) (s : σ) : S.Run s [] s := rfl

theorem run_nil_iff (S : System σ ι) (s t : σ) : S.Run s [] t ↔ s = t := by
  simp [Run,exec]

theorem run_cons_iff (S : System σ ι) (s t : σ) (a : ι) (labels : List ι) :
    S.Run s (a :: labels) t ↔ ∃ next, S.step s a = some next ∧ S.Run next labels t := by
  simp [Run,exec,Option.bind_eq_some_iff]

theorem run_append_iff (S : System σ ι) (s t : σ) (first second : List ι) :
    S.Run s (first ++ second) t ↔ ∃ middle, S.Run s first middle ∧ S.Run middle second t := by
  induction first generalizing s with
  | nil => simp [run_nil_iff]
  | cons a rest ih =>
    rw [List.cons_append,run_cons_iff]
    constructor
    · rintro ⟨next,stepped,run⟩
      obtain ⟨middle,left,right⟩ := (ih next).mp run
      exact ⟨middle,(run_cons_iff S s middle a rest).mpr ⟨next,stepped,left⟩,right⟩
    · rintro ⟨middle,left,right⟩
      obtain ⟨next,stepped,run⟩ := (run_cons_iff S s middle a rest).mp left
      exact ⟨next,stepped,(ih next).mpr ⟨middle,run,right⟩⟩

theorem Run.trans {S : System σ ι} {s t v : σ} {first second : List ι}
    (left : S.Run s first t) (right : S.Run t second v) : S.Run s (first ++ second) v :=
  (run_append_iff S s v first second).mpr ⟨t,left,right⟩

theorem Run.single {S : System σ ι} {s t : σ} {a : ι} (stepped : S.step s a = some t) :
    S.Run s [a] t :=
  (run_cons_iff S s t a []).mpr ⟨t,stepped,run_nil S t⟩

theorem Run.invariant {S : System σ ι} {P : σ → Prop}
    (preserved : ∀ s a t, P s → S.step s a = some t → P t)
    {s t : σ} {labels : List ι} (run : S.Run s labels t) (initial : P s) : P t := by
  induction labels generalizing s with
  | nil => exact (run_nil_iff S s t).mp run ▸ initial
  | cons a rest ih =>
    obtain ⟨next,stepped,tail⟩ := (run_cons_iff S s t a rest).mp run
    exact ih tail (preserved s a next initial stepped)

theorem Reachable.invariant {S : System σ ι} {P : σ → Prop}
    (initial : ∀ s, S.start s → P s)
    (preserved : ∀ s a t, P s → S.step s a = some t → P t)
    {t : σ} (reached : S.Reachable t) : P t := by
  obtain ⟨s,labels,started,run⟩ := reached
  exact run.invariant preserved (initial s started)

theorem Reachable.start {S : System σ ι} {s : σ} (started : S.start s) : S.Reachable s :=
  ⟨s,[],started,run_nil S s⟩

theorem Reachable.extend {S : System σ ι} {s t : σ} {labels : List ι}
    (reached : S.Reachable s) (run : S.Run s labels t) : S.Reachable t := by
  obtain ⟨s₀,before,started,prior⟩ := reached
  exact ⟨s₀,before ++ labels,started,prior.trans run⟩

/-- A measure that every step lowers: from each state some run reaches one without a step. -/
theorem halts {S : System σ ι} {P : σ → Prop} (left : σ → ℕ)
    (preserved : ∀ s a t, P s → S.step s a = some t → P t)
    (lowers : ∀ s a t, P s → S.step s a = some t → left t < left s)
    {s : σ} (initial : P s) : ∃ labels t, S.Run s labels t ∧ ∀ a, S.step t a = none := by
  induction size : left s using Nat.strongRecOn generalizing s with
  | _ n ih =>
    subst size
    by_cases ended : ∀ a, S.step s a = none
    · exact ⟨[],s,run_nil S s,ended⟩
    · obtain ⟨a,enabled⟩ := not_forall.mp ended
      obtain ⟨t,stepped⟩ := Option.ne_none_iff_exists'.mp enabled
      obtain ⟨labels,final,run,still⟩ := ih (left t) (lowers s a t initial stepped) (preserved s a t initial stepped) rfl
      exact ⟨a :: labels,final,(run_cons_iff S s final a labels).mpr ⟨t,stepped,run⟩,still⟩

/-- The same system under a scheduler and an environment that take a step only
where `C` allows it: its runs are the runs all of whose steps meet `C`. -/
def restrict (S : System σ ι) (C : σ → ι → Bool) : System σ ι where
  start := S.start
  step s a := if C s a then S.step s a else none

theorem restrict_step_iff (S : System σ ι) (C : σ → ι → Bool) (s t : σ) (a : ι) :
    (S.restrict C).step s a = some t ↔ C s a = true ∧ S.step s a = some t := by
  simp [restrict]

theorem Run.unrestricted {S : System σ ι} {C : σ → ι → Bool} {s t : σ} {labels : List ι}
    (run : (S.restrict C).Run s labels t) : S.Run s labels t := by
  induction labels generalizing s with
  | nil => exact (run_nil_iff S s t).mpr ((run_nil_iff _ s t).mp run)
  | cons a rest ih =>
    obtain ⟨next,stepped,tail⟩ := (run_cons_iff _ s t a rest).mp run
    exact (run_cons_iff S s t a rest).mpr ⟨next,((restrict_step_iff S C s next a).mp stepped).2,ih tail⟩

theorem Reachable.unrestricted {S : System σ ι} {C : σ → ι → Bool} {s : σ} (reached : (S.restrict C).Reachable s) :
    S.Reachable s := by
  obtain ⟨s₀,labels,started,run⟩ := reached
  exact ⟨s₀,labels,started,run.unrestricted⟩

/-- The steps that keep `Q` are the allowed ones: the runs that keep it are those whose steps
are all allowed. -/
theorem restrict_run_iff {S : System σ ι} {C : σ → ι → Bool} {P Q : σ → Prop}
    (preserved : ∀ s a t, P s → S.step s a = some t → P t)
    (kept_iff : ∀ s a t, P s → S.step s a = some t → (Q t ↔ Q s ∧ C s a = true))
    {s t : σ} {labels : List ι} (initial : P s) (good : Q s) :
    (S.restrict C).Run s labels t ↔ S.Run s labels t ∧ Q t := by
  have backwards {s : σ} {labels : List ι} (run : S.Run s labels t) (initial : P s) (good : Q t) : Q s := by
    induction labels generalizing s with
    | nil => exact (run_nil_iff S s t).mp run ▸ good
    | cons a rest ih =>
      obtain ⟨next,stepped,tail⟩ := (run_cons_iff S s t a rest).mp run
      exact ((kept_iff s a next initial stepped).mp (ih tail (preserved s a next initial stepped))).1
  induction labels generalizing s with
  | nil =>
    rw [run_nil_iff,run_nil_iff]
    constructor
    · rintro rfl
      exact ⟨rfl,good⟩
    · exact And.left
  | cons a rest ih =>
    rw [run_cons_iff,run_cons_iff]
    constructor
    · rintro ⟨next,stepped,tail⟩
      obtain ⟨allowed,stepped⟩ := (restrict_step_iff S C s next a).mp stepped
      have kept := (kept_iff s a next initial stepped).mpr ⟨good,allowed⟩
      obtain ⟨tail,final⟩ := (ih (preserved s a next initial stepped) kept).mp tail
      exact ⟨⟨next,stepped,tail⟩,final⟩
    · rintro ⟨⟨next,stepped,tail⟩,final⟩
      have there := preserved s a next initial stepped
      have kept := backwards tail there final
      have allowed := ((kept_iff s a next initial stepped).mp kept).2
      exact ⟨next,(restrict_step_iff S C s next a).mpr ⟨allowed,stepped⟩,(ih there kept).mpr ⟨tail,final⟩⟩

/-- A forward simulation: every concrete step is matched by a finite abstract run
(empty for a step that the abstract system does not see). -/
structure Simulation (S : System σ ι) (T : System τ κ) where
  related : σ → τ → Prop
  initial : ∀ s, S.start s → ∃ t, T.start t ∧ related s t
  matched : ∀ s a s' t, related s t → S.step s a = some s' →
    ∃ labels t', T.Run t labels t' ∧ related s' t'

theorem Simulation.reachable {S : System σ ι} {T : System τ κ} (sim : Simulation S T)
    {s : σ} (reached : S.Reachable s) : ∃ t, T.Reachable t ∧ sim.related s t := by
  apply Reachable.invariant (P := fun s => ∃ t, T.Reachable t ∧ sim.related s t) _ _ reached
  · intro s started
    obtain ⟨t,begun,rel⟩ := sim.initial s started
    exact ⟨t,.start begun,rel⟩
  · rintro s a s' ⟨t,reachedT,rel⟩ stepped
    obtain ⟨labels,t',run,rel'⟩ := sim.matched s a s' t rel stepped
    exact ⟨t',reachedT.extend run,rel'⟩

/-- The states of the infinite run under a schedule; a label that is not enabled when
its turn comes changes nothing. -/
def trace (S : System σ ι) (s : σ) (schedule : ℕ → ι) : ℕ → σ
  | 0 => s
  | n + 1 => (S.step (S.trace s schedule n) (schedule n)).getD (S.trace s schedule n)

def Fair (schedule : ℕ → ι) : Prop := ∀ a n, ∃ m, n ≤ m ∧ schedule m = a

theorem trace_invariant {S : System σ ι} {P : σ → Prop}
    (preserved : ∀ s a t, P s → S.step s a = some t → P t) {s : σ} (initial : P s)
    (schedule : ℕ → ι) (n : ℕ) : P (S.trace s schedule n) := by
  induction n with
  | zero => exact initial
  | succ n ih =>
    rw [trace]
    cases stepped : S.step (S.trace s schedule n) (schedule n) with
    | none => exact ih
    | some t => exact preserved _ _ t ih stepped

/-- A goal that every fair run reaches: outside the goal the measure never grows, the
step that helps makes it smaller, and it helps until the measure gets smaller. -/
structure Progress (S : System σ ι) (P goal : σ → Prop) where
  measure : σ → ℕ
  helpful : σ → ι
  preserved : ∀ s a t, P s → S.step s a = some t → P t
  enabled : ∀ s, P s → ¬ goal s → ∃ t, S.step s (helpful s) = some t ∧ (goal t ∨ measure t < measure s)
  bounded : ∀ s a t, P s → ¬ goal s → S.step s a = some t →
    goal t ∨ measure t < measure s ∨ measure t = measure s ∧ helpful t = helpful s

namespace Progress
variable {S : System σ ι} {P goal : σ → Prop}

/-- Waiting for the helpful label: until its turn the measure is smaller or nothing
has changed that matters. -/
theorem wait (progress : Progress S P goal) {s : σ} (initial : P s) (schedule : ℕ → ι) (n d : ℕ) :
    (∃ m, n ≤ m ∧ (goal (S.trace s schedule m) ∨
        progress.measure (S.trace s schedule m) < progress.measure (S.trace s schedule n))) ∨
      progress.measure (S.trace s schedule (n + d)) = progress.measure (S.trace s schedule n) ∧
        progress.helpful (S.trace s schedule (n + d)) = progress.helpful (S.trace s schedule n) := by
  induction d with
  | zero => exact .inr ⟨rfl,rfl⟩
  | succ d ih =>
    obtain earlier | ⟨same,label⟩ := ih
    · exact .inl earlier
    · by_cases reached : goal (S.trace s schedule (n + d))
      · exact .inl ⟨n + d,Nat.le_add_right _ _,.inl reached⟩
      have holds := trace_invariant progress.preserved initial schedule (n + d)
      rw [← Nat.add_assoc]
      cases stepped : S.step (S.trace s schedule (n + d)) (schedule (n + d)) with
      | none => exact .inr (by rw [trace,stepped]; exact ⟨same,label⟩)
      | some t =>
        have next : S.trace s schedule (n + d + 1) = t := by rw [trace,stepped]; rfl
        obtain done | smaller | ⟨equal,kept⟩ := progress.bounded _ _ t holds reached stepped
        · exact .inl ⟨n + d + 1,by omega,.inl (next ▸ done)⟩
        · exact .inl ⟨n + d + 1,by omega,.inr (by rw [next,← same]; exact smaller)⟩
        · exact .inr (by rw [next]; exact ⟨equal.trans same,kept.trans label⟩)

theorem advance (progress : Progress S P goal) {s : σ} (initial : P s) {schedule : ℕ → ι}
    (fair : Fair schedule) (n : ℕ) :
    ∃ m, n ≤ m ∧ (goal (S.trace s schedule m) ∨
      progress.measure (S.trace s schedule m) < progress.measure (S.trace s schedule n)) := by
  obtain ⟨m,later,turn⟩ := fair (progress.helpful (S.trace s schedule n)) n
  obtain ⟨d,rfl⟩ := Nat.exists_eq_add_of_le later
  obtain earlier | ⟨same,label⟩ := progress.wait initial schedule n d
  · exact earlier
  · by_cases reached : goal (S.trace s schedule (n + d))
    · exact ⟨n + d,later,.inl reached⟩
    obtain ⟨t,stepped,result⟩ := progress.enabled _
      (trace_invariant progress.preserved initial schedule (n + d)) reached
    rw [label,← turn] at stepped
    have next : S.trace s schedule (n + d + 1) = t := by rw [trace,stepped]; rfl
    refine ⟨n + d + 1,by omega,?_⟩
    rw [next,← same]
    exact result

theorem reaches (progress : Progress S P goal) {s : σ} (initial : P s) {schedule : ℕ → ι}
    (fair : Fair schedule) : ∃ n, goal (S.trace s schedule n) := by
  suffices ∀ bound n, progress.measure (S.trace s schedule n) ≤ bound →
      ∃ m, goal (S.trace s schedule m) from this _ 0 (Nat.le_refl _)
  intro bound
  induction bound with
  | zero =>
    intro n small
    obtain ⟨m,_,reached | smaller⟩ := progress.advance initial fair n
    · exact ⟨m,reached⟩
    · omega
  | succ bound ih =>
    intro n small
    obtain ⟨m,_,reached | smaller⟩ := progress.advance initial fair n
    · exact ⟨m,reached⟩
    · exact ih m (by omega)

end Progress
end System
end Library
