import Eggroll.Library.Program

/-! What a program without others may come to when its calls can meet anything, and when no
exception of it leaves the data changed. -/
namespace Library.Program
variable {σ Op ε Env α β : Type} {Ans : Op → Type} {serve : Service σ Op Ans ε Env}

/-- From `s` the program may end in `t` with this result. -/
def Yields (serve : Service σ Op Ans ε Env) : Program Op Ans ε α → σ → σ → Except ε α → Prop
  | ended result, s, t, last => t = s ∧ last = result
  | call op next, s, t, last => ∃ env u answer, serve s op env = some (u,answer) ∧ (next answer).Yields serve u t last

/-- Whatever its calls meet, the program leaves the data as they are when it raises. -/
def Atomic (serve : Service σ Op Ans ε Env) (p : Program Op Ans ε α) (s : σ) : Prop :=
  ∀ t e, p.Yields serve s t (.error e) → t = s

def Raised : Except ε α → Prop
  | .ok _ => False
  | .error _ => True

/-- The program may end as `Q` says with the data changed. -/
def Alters (serve : Service σ Op Ans ε Env) (Q : Except ε α → Prop) (p : Program Op Ans ε α) (s : σ) : Prop :=
  ∃ t result, p.Yields serve s t result ∧ t ≠ s ∧ Q result

/-- Wherever it starts, the program may end as `Q` says with the data as they were. -/
def Stays (serve : Service σ Op Ans ε Env) (Q : Except ε α → Prop) (p : Program Op Ans ε α) : Prop :=
  ∀ s, ∃ result, p.Yields serve s s result ∧ Q result

/-- The program changes nothing, and it ends only as `Q` says. -/
def Still (serve : Service σ Op Ans ε Env) (Q : Except ε α → Prop) (p : Program Op Ans ε α) (s : σ) : Prop :=
  ∀ t result, p.Yields serve s t result → t = s ∧ Q result

theorem not_atomic {p : Program Op Ans ε α} {s : σ} : ¬ p.Atomic serve s ↔ p.Alters serve Raised s := by
  constructor
  · intro spoilt
    simp only [Atomic,not_forall] at spoilt
    obtain ⟨t,e,ends,changed⟩ := spoilt
    exact ⟨t,.error e,ends,changed,trivial⟩
  · rintro ⟨t,result,ends,changed,raised⟩ atomic
    cases result with
    | ok a => exact raised
    | error e => exact changed (atomic t e ends)

theorem yields_pure {a : α} {s t : σ} {last : Except ε α} :
    (pure a : Program Op Ans ε α).Yields serve s t last ↔ t = s ∧ last = .ok a := Iff.rfl

theorem yields_perform {op : Op} {s t : σ} {last : Except ε (Ans op)} :
    (perform op : Program Op Ans ε (Ans op)).Yields serve s t last ↔ ∃ env, serve s op env = some (t,last) := by
  constructor
  · rintro ⟨env,u,answer,served,rfl,rfl⟩
    exact ⟨env,served⟩
  · rintro ⟨env,served⟩
    exact ⟨env,t,last,served,rfl,rfl⟩

theorem yields_andThen {p : Program Op Ans ε α} {f : Except ε α → Program Op Ans ε β} {s t : σ} {last : Except ε β} :
    (p.andThen f).Yields serve s t last ↔ ∃ u result, p.Yields serve s u result ∧ (f result).Yields serve u t last := by
  induction p generalizing s with
  | ended result =>
    constructor
    · exact fun ends => ⟨s,result,⟨rfl,rfl⟩,ends⟩
    · rintro ⟨u,_,⟨rfl,rfl⟩,ends⟩
      exact ends
  | call op next ih =>
    constructor
    · rintro ⟨env,u,answer,served,rest⟩
      obtain ⟨v,result,first,second⟩ := (ih answer).mp rest
      exact ⟨v,result,⟨env,u,answer,served,first⟩,second⟩
    · rintro ⟨v,result,⟨env,u,answer,served,first⟩,second⟩
      exact ⟨env,u,answer,served,(ih answer).mpr ⟨v,result,first,second⟩⟩

theorem yields_bind {p : Program Op Ans ε α} {f : α → Program Op Ans ε β} {s t : σ} {last : Except ε β} :
    (p >>= f).Yields serve s t last ↔
      (∃ u a, p.Yields serve s u (.ok a) ∧ (f a).Yields serve u t last) ∨
        ∃ e, p.Yields serve s t (.error e) ∧ last = .error e := by
  rw [bind_eq,yields_andThen]
  constructor
  · rintro ⟨u,result,first,second⟩
    cases result with
    | ok a => exact .inl ⟨u,a,first,second⟩
    | error e =>
      obtain ⟨rfl,rfl⟩ := second
      exact .inr ⟨e,first,rfl⟩
  · rintro (⟨u,a,first,second⟩ | ⟨e,first,rfl⟩)
    · exact ⟨u,.ok a,first,second⟩
    · exact ⟨t,.error e,first,rfl,rfl⟩

theorem yields_of_run {p : Program Op Ans ε α} {env : ℕ → Env} {s t : σ} {n m : ℕ} {last : Except ε α}
    (ran : p.run serve env s n = some (t,m,last)) : p.Yields serve s t last := by
  induction p generalizing s n with
  | ended result =>
    cases ran
    exact ⟨rfl,rfl⟩
  | call op next ih =>
    rw [run] at ran
    split at ran
    case h_1 => cases ran
    case h_2 u answer served => exact ⟨env n,u,answer,served,ih answer ran⟩

theorem vacuous {Q : α → Prop} (e : ε) : ∀ a, (Except.error e : Except ε α) = .ok a → Q a := by
  intro a is
  cases is

namespace Still

theorem atomic {Q : Except ε α → Prop} {p : Program Op Ans ε α} {s : σ} (still : p.Still serve Q s) :
    p.Atomic serve s := fun t e ends => (still t (.error e) ends).1

theorem mono {P Q : Except ε α → Prop} {p : Program Op Ans ε α} {s : σ} (still : p.Still serve P s)
    (weaker : ∀ result, P result → Q result) : p.Still serve Q s := fun t result ends =>
  ⟨(still t result ends).1,weaker result (still t result ends).2⟩

theorem pure {Q : Except ε α → Prop} {a : α} {s : σ} (holds : Q (.ok a)) :
    (Pure.pure a : Program Op Ans ε α).Still serve Q s := by
  rintro t result ⟨rfl,rfl⟩
  exact ⟨rfl,holds⟩

theorem raise {Q : Except ε α → Prop} {e : ε} {s : σ} (holds : Q (.error e)) :
    (Program.raise e : Program Op Ans ε α).Still serve Q s := by
  rintro t result ⟨rfl,rfl⟩
  exact ⟨rfl,holds⟩

theorem bind {P : Except ε α → Prop} {Q : Except ε β → Prop} {p : Program Op Ans ε α}
    {f : α → Program Op Ans ε β} {s : σ} (still : p.Still serve P s)
    (raises : ∀ e, P (.error e) → Q (.error e)) (follows : ∀ a, P (.ok a) → (f a).Still serve Q s) :
    (p >>= f).Still serve Q s := by
  intro t result ends
  rcases yields_bind.mp ends with ⟨u,a,first,second⟩ | ⟨e,first,rfl⟩
  · obtain ⟨rfl,holds⟩ := still u (.ok a) first
    exact follows a holds t result second
  · exact ⟨(still t _ first).1,raises e (still t _ first).2⟩

theorem tryFinally {Q : Except ε α → Prop} {p : Program Op Ans ε α} {last : Program Op Ans ε Unit} {s : σ}
    (still : p.Still serve Q s) (silent : last.Still serve (fun result => result = .ok ()) s) :
    (tryFinally p last).Still serve Q s := by
  intro t result ends
  obtain ⟨u,first,inside,rest⟩ := yields_andThen.mp ends
  obtain ⟨rfl,holds⟩ := still u first inside
  obtain ⟨v,second,closing,follows⟩ := yields_andThen.mp rest
  obtain ⟨rfl,rfl⟩ := silent v second closing
  obtain ⟨rfl,rfl⟩ := follows
  exact ⟨rfl,holds⟩

end Still

namespace Atomic

theorem bind {P : Except ε α → Prop} {p : Program Op Ans ε α} {f : α → Program Op Ans ε β} {s : σ}
    (still : p.Still serve P s) (follows : ∀ a, P (.ok a) → (f a).Atomic serve s) : (p >>= f).Atomic serve s := by
  intro t e ends
  rcases yields_bind.mp ends with ⟨u,a,first,second⟩ | ⟨_,first,_⟩
  · obtain ⟨rfl,holds⟩ := still u (.ok a) first
    exact follows a holds t e second
  · exact (still t _ first).1

theorem then_sure {p : Program Op Ans ε α} {f : α → Program Op Ans ε β} {s : σ} (first : p.Atomic serve s)
    (sure : ∀ a t u e, ¬ (f a).Yields serve t u (.error e)) : (p >>= f).Atomic serve s := by
  intro t e ends
  rcases yields_bind.mp ends with ⟨u,a,_,second⟩ | ⟨_,raised,_⟩
  · exact absurd second (sure a u t e)
  · exact first t _ raised

theorem tryFinally {p : Program Op Ans ε α} {last : Program Op Ans ε Unit} {s : σ} (first : p.Atomic serve s)
    (silent : ∀ t, last.Still serve (fun result => result = .ok ()) t) : (tryFinally p last).Atomic serve s := by
  intro t e ends
  obtain ⟨u,result,inside,rest⟩ := yields_andThen.mp ends
  obtain ⟨v,second,closing,follows⟩ := yields_andThen.mp rest
  obtain ⟨rfl,rfl⟩ := silent u v second closing
  obtain ⟨rfl,rfl⟩ := follows
  exact first _ e inside

end Atomic

namespace Stays

theorem pure {Q : Except ε α → Prop} {a : α} (holds : Q (.ok a)) :
    (Pure.pure a : Program Op Ans ε α).Stays serve Q := fun _ => ⟨.ok a,⟨rfl,rfl⟩,holds⟩

theorem raise {Q : Except ε α → Prop} {e : ε} (holds : Q (.error e)) :
    (Program.raise e : Program Op Ans ε α).Stays serve Q := fun _ => ⟨.error e,⟨rfl,rfl⟩,holds⟩

theorem bind {P : Except ε α → Prop} {Q : Except ε β → Prop} {p : Program Op Ans ε α}
    {f : α → Program Op Ans ε β} (first : p.Stays serve P) (raises : ∀ e, P (.error e) → Q (.error e))
    (follows : ∀ a, P (.ok a) → (f a).Stays serve Q) : (p >>= f).Stays serve Q := by
  intro s
  obtain ⟨result,ends,holds⟩ := first s
  cases result with
  | ok a =>
    obtain ⟨last,ends',holds'⟩ := follows a holds s
    exact ⟨last,yields_bind.mpr (.inl ⟨s,a,ends,ends'⟩),holds'⟩
  | error e => exact ⟨.error e,yields_bind.mpr (.inr ⟨e,ends,rfl⟩),raises e holds⟩

theorem tryFinally {Q : Except ε α → Prop} {p : Program Op Ans ε α} {last : Program Op Ans ε Unit}
    (first : p.Stays serve Q) (silent : last.Stays serve (fun result => result = .ok ())) :
    (tryFinally p last).Stays serve Q := by
  intro s
  obtain ⟨result,ends,holds⟩ := first s
  obtain ⟨_,closing,rfl⟩ := silent s
  exact ⟨result,yields_andThen.mpr ⟨s,_,ends,yields_andThen.mpr ⟨s,_,closing,rfl,rfl⟩⟩,holds⟩

end Stays

namespace Alters

theorem mono {P Q : Except ε α → Prop} {p : Program Op Ans ε α} {s : σ} (altered : p.Alters serve P s)
    (weaker : ∀ result, P result → Q result) : p.Alters serve Q s := by
  obtain ⟨t,result,ends,changed,holds⟩ := altered
  exact ⟨t,result,ends,changed,weaker result holds⟩

theorem now {P : Except ε α → Prop} {Q : Except ε β → Prop} {p : Program Op Ans ε α}
    {f : α → Program Op Ans ε β} {s : σ} (first : p.Alters serve P s)
    (raises : ∀ e, P (.error e) → Q (.error e)) (follows : ∀ a, P (.ok a) → (f a).Stays serve Q) :
    (p >>= f).Alters serve Q s := by
  obtain ⟨t,result,ends,changed,holds⟩ := first
  cases result with
  | ok a =>
    obtain ⟨last,ends',holds'⟩ := follows a holds t
    exact ⟨t,last,yields_bind.mpr (.inl ⟨t,a,ends,ends'⟩),changed,holds'⟩
  | error e => exact ⟨t,.error e,yields_bind.mpr (.inr ⟨e,ends,rfl⟩),changed,raises e holds⟩

theorem later {Q : Except ε β → Prop} {p : Program Op Ans ε α} {f : α → Program Op Ans ε β} {s : σ} {a : α}
    (first : p.Yields serve s s (.ok a)) (second : (f a).Alters serve Q s) : (p >>= f).Alters serve Q s := by
  obtain ⟨t,result,ends,changed,holds⟩ := second
  exact ⟨t,result,yields_bind.mpr (.inl ⟨s,a,first,ends⟩),changed,holds⟩

theorem tryFinally {Q : Except ε α → Prop} {p : Program Op Ans ε α} {last : Program Op Ans ε Unit} {s : σ}
    (first : p.Alters serve Q s) (silent : last.Stays serve (fun result => result = .ok ())) :
    (tryFinally p last).Alters serve Q s := by
  obtain ⟨t,result,ends,changed,holds⟩ := first
  obtain ⟨_,closing,rfl⟩ := silent t
  exact ⟨t,result,yields_andThen.mpr ⟨t,_,ends,yields_andThen.mpr ⟨t,_,closing,rfl,rfl⟩⟩,changed,holds⟩

end Alters

theorem stays_of_service (idle : ∀ s op, ∃ env answer, serve s op env = some (s,answer)) (p : Program Op Ans ε α) :
    p.Stays serve (fun _ => True) := by
  induction p with
  | ended result => exact fun s => ⟨result,⟨rfl,rfl⟩,trivial⟩
  | call op next ih =>
    intro s
    obtain ⟨env,answer,served⟩ := idle s op
    obtain ⟨last,ends,-⟩ := ih answer s
    exact ⟨last,⟨env,s,answer,served,ends⟩,trivial⟩

/-- Every result of the program is one of `Q`. -/
def Ensures (serve : Service σ Op Ans ε Env) (Q : α → Prop) (p : Program Op Ans ε α) : Prop :=
  ∀ s t a, p.Yields serve s t (.ok a) → Q a

namespace Ensures

theorem pure {Q : α → Prop} {a : α} (holds : Q a) : (Pure.pure a : Program Op Ans ε α).Ensures serve Q := by
  intro s t b ends
  cases ends.2
  exact holds

theorem raise {Q : α → Prop} {e : ε} : (Program.raise e : Program Op Ans ε α).Ensures serve Q := by
  intro s t b ends
  cases ends.2

theorem bind {P : α → Prop} {Q : β → Prop} {p : Program Op Ans ε α} {f : α → Program Op Ans ε β}
    (first : p.Ensures serve P) (second : ∀ a, P a → (f a).Ensures serve Q) : (p >>= f).Ensures serve Q := by
  intro s t b ends
  rcases yields_bind.mp ends with ⟨u,a,here,there⟩ | ⟨e,_,is⟩
  · exact second a (first s u a here) u t b there
  · cases is

theorem after {Q : β → Prop} {p : Program Op Ans ε α} {f : α → Program Op Ans ε β}
    (second : ∀ a, (f a).Ensures serve Q) : (p >>= f).Ensures serve Q :=
  bind (P := fun _ => True) (fun _ _ _ _ => trivial) fun a _ => second a

theorem tryFinally {Q : α → Prop} {p : Program Op Ans ε α} {last : Program Op Ans ε Unit}
    (inside : p.Ensures serve Q) : (tryFinally p last).Ensures serve Q := by
  intro s t a ends
  obtain ⟨u,result,here,rest⟩ := yields_andThen.mp ends
  obtain ⟨v,closed,_,there⟩ := yields_andThen.mp rest
  cases closed with
  | ok _ =>
    cases there.2
    exact inside s u a here
  | error e => cases there.2

end Ensures

theorem Alters.ensured {Q : α → Prop} {p : Program Op Ans ε α} {s : σ} (altered : p.Alters serve (fun _ => True) s)
    (ensures : p.Ensures serve Q) : p.Alters serve (fun result => ∀ a, result = .ok a → Q a) s := by
  obtain ⟨t,result,ends,changed,-⟩ := altered
  refine ⟨t,result,ends,changed,fun a is => ensures s t a ?_⟩
  rw [← is]
  exact ends

theorem Stays.ensured {Q : α → Prop} {p : Program Op Ans ε α} (stays : p.Stays serve (fun _ => True))
    (ensures : p.Ensures serve Q) : p.Stays serve (fun result => ∀ a, result = .ok a → Q a) := by
  intro s
  obtain ⟨result,ends,-⟩ := stays s
  refine ⟨result,ends,fun a is => ensures s s a ?_⟩
  rw [← is]
  exact ends

theorem Still.ensured {P : Except ε α → Prop} {Q : α → Prop} {p : Program Op Ans ε α} {s : σ}
    (still : p.Still serve P s) (ensures : p.Ensures serve Q) :
    p.Still serve (fun result => ∀ a, result = .ok a → Q a) s := by
  intro t result ends
  refine ⟨(still t result ends).1,fun a is => ensures s t a ?_⟩
  rw [← is]
  exact ends

/-- The program only reads, and `a` is what it reads. -/
structure Reads (serve : Service σ Op Ans ε Env) (p : Program Op Ans ε α) (s : σ) (a : α) : Prop where
  still : p.Still serve (fun result => ∀ b, result = .ok b → b = a) s
  yields : p.Yields serve s s (.ok a)

namespace Reads

theorem pure {a : α} {s : σ} : (Pure.pure a : Program Op Ans ε α).Reads serve s a :=
  ⟨Still.pure fun _ same => (Except.ok.inj same).symm,yields_pure.mpr ⟨rfl,rfl⟩⟩

theorem bind {p : Program Op Ans ε α} {f : α → Program Op Ans ε β} {s : σ} {a : α} {b : β}
    (first : p.Reads serve s a) (second : (f a).Reads serve s b) : (p >>= f).Reads serve s b := by
  refine ⟨first.still.bind (fun e _ => vacuous e) fun c same => ?_,
    yields_bind.mpr (.inl ⟨s,a,first.yields,second.yields⟩)⟩
  rw [same c rfl]
  exact second.still

theorem tryFinally {p : Program Op Ans ε α} {last : Program Op Ans ε Unit} {s : σ} {a : α}
    (reads : p.Reads serve s a) (silent : last.Still serve (fun result => result = .ok ()) s)
    (ends : last.Stays serve (fun result => result = .ok ())) : (tryFinally p last).Reads serve s a := by
  obtain ⟨_,closing,rfl⟩ := ends s
  exact ⟨reads.still.tryFinally silent,
    yields_andThen.mpr ⟨s,_,reads.yields,yields_andThen.mpr ⟨s,_,closing,rfl,rfl⟩⟩⟩

end Reads

theorem atomic_of_reads {p : Program Op Ans ε α} {f : α → Program Op Ans ε β} {s : σ} {a : α}
    (reads : p.Reads serve s a) : (p >>= f).Atomic serve s ↔ (f a).Atomic serve s := by
  constructor
  · intro atomic t e ends
    exact atomic t e (yields_bind.mpr (.inl ⟨s,a,reads.yields,ends⟩))
  · intro atomic
    apply Atomic.bind reads.still
    intro b same
    rw [same b rfl]
    exact atomic

theorem atomic_of_still {Q : Except ε α → Prop} {p : Program Op Ans ε α} {f : α → Program Op Ans ε β} {s : σ}
    (still : p.Still serve Q s) :
    (p >>= f).Atomic serve s ↔ ∀ a, p.Yields serve s s (.ok a) → (f a).Atomic serve s := by
  constructor
  · intro atomic a first t e ends
    exact atomic t e (yields_bind.mpr (.inl ⟨s,a,first,ends⟩))
  · intro atomic t e ends
    rcases yields_bind.mp ends with ⟨u,a,first,second⟩ | ⟨_,first,_⟩
    · obtain ⟨rfl,-⟩ := still u (.ok a) first
      exact atomic a first t e second
    · exact (still t _ first).1

theorem atomic_tryFinally {p : Program Op Ans ε α} {last : Program Op Ans ε Unit} {s : σ}
    (silent : ∀ t, last.Still serve (fun result => result = .ok ()) t)
    (ends : last.Stays serve (fun result => result = .ok ())) :
    (tryFinally p last).Atomic serve s ↔ p.Atomic serve s := by
  constructor
  · intro atomic
    by_contra spoilt
    exact not_atomic.mpr ((not_atomic.mp spoilt).tryFinally ends) atomic
  · exact fun atomic => atomic.tryFinally silent
end Library.Program
