import Mathlib.Data.Fintype.Basic
import Mathlib.Data.List.Count
import Eggroll.Library.ReentrantLock
import Eggroll.Library.System

/-! Locks by key (`LockUtils.java`): a lock object is looked up in a bounded, expiring
cache when it is taken and looked up again when it is given back. Each step is one call
into the cache, the cache's monitor or a lock. -/
namespace Eggroll.LockUtils
open Library

/-- What a call can throw, with the text of the message up to the key. -/
inductive Thrown (K : Type)
  | runtimeException (message : String) (key : K)
  | illegalMonitorState
deriving Repr, DecidableEq

def get_lock_error : String := "get lockCache error ,key = "

/-- Where a thread stands in `lock` (to `acquire`) or `unLock` (`find`, `release`). -/
inductive Pc (K : Type)
  | idle
  | check (key : K)
  | enter (key : K)
  | recheck (key : K)
  | put (key : K)
  | leave (key : K)
  | lookup (key : K)
  | acquire (key : K) (lock : Nat)
  | find (key : K)
  | release (key : K) (lock : Nat)
deriving Repr, DecidableEq

section
variable {T K : Type} [DecidableEq T] [DecidableEq K]

/-- `locks` are the lock objects, `next` the first that has not been made. `held` is
history: the calls of `lock` a thread has not answered by `unLock`, with their objects. -/
structure State (T K : Type) where
  monitor : Option T
  entries : K → Option Nat
  used : List K
  locks : Nat → ReentrantLock T
  next : Nat
  pc : T → Pc K
  held : T → List (K × Nat)
  thrown : T → Option (Thrown K)

inductive Act (T K : Type)
  | lock (t : T) (key : K)
  | unLock (t : T) (key : K)
  | advance (t : T)
  | evict (key : K)
  | expire (key : K)
deriving Repr, DecidableEq

namespace State

def init : State T K where
  monitor := none
  entries := fun _ => none
  used := []
  locks := fun _ => .new
  next := 0
  pc := fun _ => .idle
  held := fun _ => []
  thrown := fun _ => none

def goto (s : State T K) (t : T) (pc : Pc K) : State T K := { s with pc := Function.update s.pc t pc }

def throw (s : State T K) (t : T) (e : Thrown K) : State T K :=
  { s with thrown := Function.update s.thrown t (some e) }

/-- The call of `unLock` is over, however it ended. -/
def answered (s : State T K) (t : T) (key : K) : State T K :=
  { s.goto t .idle with held := Function.update s.held t ((s.held t).eraseP (fun e => e.1 = key)) }

def call (s : State T K) (t : T) (pc : Pc K) : Option (State T K) :=
  if s.pc t = .idle then some { s.goto t pc with thrown := Function.update s.thrown t none } else none

/-- `lockCache.put(key, new ReentrantLock())`. -/
def store (s : State T K) (key : K) : State T K :=
  { s with
    entries := Function.update s.entries key (some s.next)
    used := s.used.insert key
    locks := Function.update s.locks s.next .new
    next := s.next + 1 }

def advance (s : State T K) (t : T) : Option (State T K) :=
  match s.pc t with
  | .idle => none
  | .check key => some (s.goto t (if (s.entries key).isNone then .enter key else .lookup key))
  | .enter key => if s.monitor.isNone then some ({ s with monitor := some t }.goto t (.recheck key)) else none
  | .recheck key => some (s.goto t (if (s.entries key).isNone then .put key else .leave key))
  | .put key => some ((s.store key).goto t (.leave key))
  | .leave key => some ({ s with monitor := none }.goto t (.lookup key))
  | .lookup key =>
    match s.entries key with
    | none => some ((s.throw t (.runtimeException get_lock_error key)).goto t .idle)
    | some lock => some (s.goto t (.acquire key lock))
  | .acquire key lock => ((s.locks lock).lock t).map fun l =>
      { s.goto t .idle with
        locks := Function.update s.locks lock l
        held := Function.update s.held t ((key,lock) :: s.held t) }
  | .find key =>
    match s.entries key with
    | none => some (s.answered t key)
    | some lock => some (s.goto t (.release key lock))
  | .release key lock =>
    match (s.locks lock).unlock t with
    | some l => some { s.answered t key with locks := Function.update s.locks lock l }
    | none => some ((s.throw t .illegalMonitorState).answered t key)

def drop (s : State T K) (key : K) : State T K := { s with entries := Function.update s.entries key none }

end State

/-- The cache drops any entry once more than `maximumSize` keys were used, or when it has
expired; an entry expires a fixed time after it was put, whatever happened to it since. -/
def system (maximumSize : Nat) : System (State T K) (Act T K) where
  start s := s = State.init
  step s
    | .lock t key => s.call t (.check key)
    | .unLock t key => s.call t (.find key)
    | .advance t => s.advance t
    | .evict key => if maximumSize < s.used.length then some (s.drop key) else none
    | .expire key => some (s.drop key)

def Pc.found : Pc K → Option (K × Nat)
  | .acquire key lock | .release key lock => some (key,lock)
  | _ => none

def Uses (s : State T K) (t : T) (key : K) : Prop :=
  (∃ e ∈ s.held t, e.1 = key) ∨ ∃ e ∈ (s.pc t).found, e.1 = key

instance (s : State T K) (t : T) (key : K) : Decidable (Uses s t key) :=
  inferInstanceAs (Decidable (_ ∨ _))

/-- The cache drops only entries whose lock no thread uses. -/
def spares [Fintype T] (s : State T K) : Act T K → Bool
  | .evict key | .expire key => decide (∀ t, ¬ Uses s t key)
  | _ => true

/-- Inside `synchronized (lockCache)`. -/
def Pc.inside : Pc K → Bool
  | .recheck _ | .put _ | .leave _ => true
  | _ => false

structure Invariant (s : State T K) : Prop where
  made : ∀ key lock, s.entries key = some lock → lock < s.next
  apart : ∀ key other lock, s.entries key = some lock → s.entries other = some lock → key = other
  monitor : ∀ t, (s.pc t).inside = true → s.monitor = some t
  absent : ∀ t key, s.pc t = .put key → s.entries key = none
  kept : ∀ t e, e ∈ s.held t ∨ (s.pc t).found = some e → s.entries e.1 = some e.2
  counted : ∀ t lock, (s.locks lock).holdCount t = (s.held t).countP (fun e => e.2 = lock)

namespace Invariant
variable {s : State T K} {t : T} {key : K}

omit [DecidableEq K] in
theorem init : Invariant (State.init : State T K) where
  made _ _ found := by simp [State.init] at found
  apart _ _ _ found := by simp [State.init] at found
  monitor _ inside := by simp [State.init,Pc.inside] at inside
  absent _ _ at_put := by simp [State.init] at at_put
  kept _ _ known := by simp [State.init,Pc.found] at known
  counted _ _ := by simp [State.init]

omit [DecidableEq K] in
theorem goto (inv : Invariant s) {pc : Pc K} (inside : pc.inside = true → s.monitor = some t)
    (absent : ∀ key, pc = .put key → s.entries key = none)
    (found : ∀ e, pc.found = some e → s.entries e.1 = some e.2) : Invariant (s.goto t pc) where
  made := inv.made
  apart := inv.apart
  monitor u known := by
    simp only [State.goto,Function.update_apply] at known ⊢
    split at known
    · rename_i same
      exact same ▸ inside known
    · exact inv.monitor u known
  absent u key known := by
    simp only [State.goto,Function.update_apply] at known ⊢
    split at known
    · exact absent key known
    · exact inv.absent u key known
  kept u e known := by
    simp only [State.goto,Function.update_apply] at known ⊢
    split at known
    · rename_i same
      exact known.elim (fun held => inv.kept u e (.inl held)) (found e)
    · exact inv.kept u e known
  counted := inv.counted

omit [DecidableEq K] in
theorem goto_free (inv : Invariant s) {pc : Pc K} (inside : pc.inside = false)
    (found : pc.found = none) : Invariant (s.goto t pc) := by
  apply inv.goto
  · intro known
    rw [inside] at known
    cases known
  · rintro key rfl
    cases inside
  · intro e known
    rw [found] at known
    cases known

omit [DecidableEq K] in
theorem throw (inv : Invariant s) (e : Thrown K) : Invariant (s.throw t e) :=
  ⟨inv.made,inv.apart,inv.monitor,inv.absent,inv.kept,inv.counted⟩

theorem drop (inv : Invariant s) (unused : ∀ t, ¬ Uses s t key) : Invariant (s.drop key) where
  made other lock found := by
    simp only [State.drop,Function.update_apply] at found
    split at found
    · cases found
    · exact inv.made other lock found
  apart first second lock one two := by
    simp only [State.drop,Function.update_apply] at one two
    split at one
    · cases one
    · split at two
      · cases two
      · exact inv.apart first second lock one two
  monitor := inv.monitor
  absent u other known := by
    simp only [State.drop,Function.update_apply]
    split
    · rfl
    · exact inv.absent u other known
  kept u e known := by
    have other : e.1 ≠ key := by
      rintro rfl
      exact unused u (known.imp (fun held => ⟨e,held,rfl⟩) (fun found => ⟨e,found,rfl⟩))
    simp only [State.drop,Function.update_of_ne other]
    exact inv.kept u e known
  counted := inv.counted

theorem store (inv : Invariant s) (inside : s.pc t = .put key) :
    Invariant ((s.store key).goto t (.leave key)) := by
  have mine : s.monitor = some t := inv.monitor t (by rw [inside]; rfl)
  have empty := inv.absent t key inside
  have unseen (u : T) (e : K × Nat) (known : e ∈ s.held u ∨ (s.pc u).found = some e) :
      e.1 ≠ key ∧ e.2 < s.next := by
    have there := inv.kept u e known
    refine ⟨?_,inv.made _ _ there⟩
    rintro rfl
    rw [empty] at there
    cases there
  constructor
  · intro other lock found
    simp only [State.goto,State.store,Function.update_apply] at found ⊢
    split at found
    · cases found
      omega
    · have := inv.made other lock found
      omega
  · intro first second lock one two
    simp only [State.goto,State.store,Function.update_apply] at one two
    split at one <;> split at two
    · simp_all
    · cases one
      exact absurd (inv.made second _ two) (Nat.lt_irrefl _)
    · cases two
      exact absurd (inv.made first _ one) (Nat.lt_irrefl _)
    · exact inv.apart first second lock one two
  · intro u known
    simp only [State.goto,State.store,Function.update_apply] at known ⊢
    split at known
    · rename_i same
      exact same ▸ mine
    · exact inv.monitor u known
  · intro u other known
    simp only [State.goto,State.store,Function.update_apply] at known ⊢
    split at known
    · cases known
    · rename_i different
      have again := inv.monitor u (by rw [known]; rfl)
      exact absurd (Option.some.inj (again.symm.trans mine)) different
  · intro u e known
    simp only [State.goto,State.store,Function.update_apply] at known ⊢
    have before : e ∈ s.held u ∨ (s.pc u).found = some e := by
      split at known
      · exact known.imp id (fun found => by cases found)
      · exact known
    obtain ⟨other,-⟩ := unseen u e before
    rw [if_neg other]
    exact inv.kept u e before
  · intro u lock
    simp only [State.goto,State.store,Function.update_apply]
    split
    · rename_i new
      rw [ReentrantLock.holdCount_new,eq_comm,List.countP_eq_zero]
      intro e member
      have := (unseen u e (.inl member)).2
      simp only [decide_eq_true_eq]
      omega
    · exact inv.counted u lock

omit [DecidableEq K] in
theorem settle (inv : Invariant s) {locks : Nat → ReentrantLock T} {held : List (K × Nat)}
    (known : ∀ e ∈ held, s.entries e.1 = some e.2)
    (others : ∀ u lock, u ≠ t → (locks lock).holdCount u = (s.locks lock).holdCount u)
    (mine : ∀ lock, (locks lock).holdCount t = held.countP (fun e => e.2 = lock)) :
    Invariant { s.goto t .idle with held := Function.update s.held t held, locks := locks } where
  made := inv.made
  apart := inv.apart
  monitor := (inv.goto_free rfl rfl : Invariant (s.goto t .idle)).monitor
  absent := (inv.goto_free rfl rfl : Invariant (s.goto t .idle)).absent
  kept u e before := by
    simp only [State.goto,Function.update_apply] at before ⊢
    split at before
    · exact before.elim (known e) (fun found => by cases found)
    · exact inv.kept u e before
  counted u lock := by
    by_cases same : u = t
    · subst same
      simpa using mine lock
    · simpa [Function.update_of_ne same] using (others u lock same).trans (inv.counted u lock)

omit [DecidableEq K] in
theorem acquire (inv : Invariant s) {lock : Nat} {l : ReentrantLock T} (at_lock : s.pc t = .acquire key lock)
    (locked : (s.locks lock).lock t = some l) :
    Invariant { s.goto t .idle with
      held := Function.update s.held t ((key,lock) :: s.held t)
      locks := Function.update s.locks lock l } := by
  have there := inv.kept t (key,lock) (.inr (by rw [at_lock]; rfl))
  apply inv.settle
  · intro e member
    rcases List.mem_cons.mp member with rfl | before
    · exact there
    · exact inv.kept t e (.inl before)
  · intro u other different
    by_cases same : other = lock
    · subst same
      simpa [different] using ReentrantLock.lock_holdCount locked u
    · rw [Function.update_of_ne same]
  · intro other
    rw [List.countP_cons,← inv.counted t other]
    by_cases same : other = lock
    · subst same
      simpa using ReentrantLock.lock_holdCount locked t
    · simp [Function.update_of_ne same,Ne.symm same]

omit [DecidableEq K] in
theorem held_lock (inv : Invariant s) {lock : Nat} (there : s.entries key = some lock)
    {e : K × Nat} (member : e ∈ s.held t) : e.1 = key ↔ e.2 = lock := by
  have mine := inv.kept t e (.inl member)
  constructor
  · rintro rfl
    exact Option.some.inj (mine.symm.trans there)
  · rintro rfl
    exact inv.apart _ _ _ mine there

theorem answered (inv : Invariant s) (none_held : ∀ e ∈ s.held t, e.1 ≠ key) :
    Invariant (s.answered t key) := by
  have same : (s.held t).eraseP (fun e => e.1 = key) = s.held t :=
    List.eraseP_of_forall_not (fun e member => by simpa using none_held e member)
  rw [State.answered,same]
  exact inv.settle (fun e member => inv.kept t e (.inl member)) (fun _ _ _ => rfl) (inv.counted t)

theorem release (inv : Invariant s) {lock : Nat} {l : ReentrantLock T} (at_lock : s.pc t = .release key lock)
    (unlocked : (s.locks lock).unlock t = some l) :
    Invariant { s.answered t key with locks := Function.update s.locks lock l } := by
  have there := inv.kept t (key,lock) (.inr (by rw [at_lock]; rfl))
  have owned := ReentrantLock.unlock_isSome.mp (Option.isSome_of_eq_some unlocked)
  rw [inv.counted,List.countP_pos_iff] at owned
  obtain ⟨e,member,object⟩ := owned
  have mine : e.1 = key := (inv.held_lock there member).mpr (of_decide_eq_true object)
  obtain ⟨gone,before,after,-,this_key,split,erased⟩ :=
    List.exists_of_eraseP (p := fun e : K × Nat => e.1 = key) member (decide_eq_true mine)
  have gone_member : gone ∈ s.held t := by
    rw [split]
    simp
  have gone_lock : gone.2 = lock := (inv.held_lock there gone_member).mp (of_decide_eq_true this_key)
  apply inv.settle
  · intro e' member'
    exact inv.kept t e' (.inl (List.mem_of_mem_eraseP member'))
  · intro u other different
    by_cases same : other = lock
    · subst same
      simpa [different] using ReentrantLock.unlock_holdCount unlocked u
    · rw [Function.update_of_ne same]
  · intro other
    have count := inv.counted t other
    rw [split,List.countP_append,List.countP_cons] at count
    rw [erased,List.countP_append]
    by_cases same : other = lock
    · subst same
      have less := ReentrantLock.unlock_holdCount unlocked t
      simp only [gone_lock,decide_true,if_true,Function.update_self] at count less ⊢
      omega
    · have different : ¬ gone.2 = other := fun equal => same (equal.symm.trans gone_lock)
      rw [Function.update_of_ne same,count]
      simp [different]

theorem advance (inv : Invariant s) {s' : State T K} (stepped : s.advance t = some s') : Invariant s' := by
  unfold State.advance at stepped
  split at stepped
  · cases stepped
  · cases stepped
    split <;> exact inv.goto_free rfl rfl
  · rename_i key at_enter
    split at stepped
    · rename_i free
      cases stepped
      have alone (u : T) : (s.pc u).inside = false := by
        by_contra busy
        have := inv.monitor u (by simpa using busy)
        simp [this] at free
      have entered : Invariant { s with monitor := some t } :=
        ⟨inv.made,inv.apart,fun u busy => by simp [alone u] at busy,inv.absent,inv.kept,inv.counted⟩
      exact entered.goto (fun _ => rfl) (fun _ other => by cases other) (fun _ other => by cases other)
    · cases stepped
  · rename_i key at_recheck
    cases stepped
    have mine := inv.monitor t (by rw [at_recheck]; rfl)
    split
    · rename_i empty
      apply inv.goto (fun _ => mine)
      · rintro other equal
        cases equal
        exact Option.isNone_iff_eq_none.mp empty
      · intro _ other
        cases other
    · exact inv.goto (fun _ => mine) (fun _ other => by cases other) (fun _ other => by cases other)
  · rename_i key at_put
    cases stepped
    exact inv.store at_put
  · rename_i key at_leave
    cases stepped
    have mine := inv.monitor t (by rw [at_leave]; rfl)
    have outside : Invariant (s.goto t (.lookup key)) := inv.goto_free rfl rfl
    refine ⟨outside.made,outside.apart,fun u busy => ?_,outside.absent,outside.kept,outside.counted⟩
    have other := outside.monitor u busy
    obtain rfl : t = u := Option.some.inj (mine.symm.trans other)
    simp [State.goto,Pc.inside] at busy
  · split at stepped
    · cases stepped
      exact (inv.throw _).goto_free rfl rfl
    · rename_i key at_lookup lock there
      cases stepped
      apply inv.goto
      · intro other
        cases other
      · intro _ other
        cases other
      · intro e found
        cases found
        exact there
  · rename_i key lock at_acquire
    obtain ⟨l,locked,rfl⟩ := Option.map_eq_some_iff.mp stepped
    exact inv.acquire at_acquire locked
  · rename_i key at_find
    split at stepped
    · rename_i missing
      cases stepped
      apply inv.answered
      rintro e member rfl
      have := inv.kept t e (.inl member)
      rw [missing] at this
      cases this
    · rename_i lock there
      cases stepped
      apply inv.goto
      · intro other
        cases other
      · intro _ other
        cases other
      · intro e found
        cases found
        exact there
  · rename_i key lock at_release
    have there := inv.kept t (key,lock) (.inr (by rw [at_release]; rfl))
    split at stepped
    · rename_i l unlocked
      cases stepped
      exact inv.release at_release unlocked
    · rename_i refused
      cases stepped
      apply (inv.throw _).answered
      intro e member mine
      have object := (inv.held_lock there member).mp mine
      have owned : 0 < (s.locks lock).holdCount t := by
        rw [inv.counted,List.countP_pos_iff]
        exact ⟨e,member,decide_eq_true object⟩
      rw [← ReentrantLock.unlock_isSome,refused] at owned
      cases owned

theorem call (inv : Invariant s) {s' : State T K} {pc : Pc K} (inside : pc.inside = false)
    (found : pc.found = none) (stepped : s.call t pc = some s') : Invariant s' := by
  unfold State.call at stepped
  split at stepped
  · cases stepped
    have there := inv.goto_free (t := t) inside found
    exact ⟨there.made,there.apart,there.monitor,there.absent,there.kept,there.counted⟩
  · cases stepped

theorem step [Fintype T] (inv : Invariant s) {s' : State T K} {a : Act T K} {maximumSize : Nat}
    (spared : spares s a = true) (stepped : (system maximumSize).step s a = some s') : Invariant s' := by
  cases a with
  | lock t key => exact inv.call rfl rfl stepped
  | unLock t key => exact inv.call rfl rfl stepped
  | advance t => exact inv.advance stepped
  | evict key =>
    simp only [system,Option.ite_none_right_eq_some,Option.some.injEq] at stepped
    obtain ⟨-,rfl⟩ := stepped
    exact inv.drop (of_decide_eq_true spared)
  | expire key =>
    cases stepped
    exact inv.drop (of_decide_eq_true spared)

omit [DecidableEq K] in
theorem owned (inv : Invariant s) {lock : Nat} (owner : (s.locks lock).owner = some t) :
    ∃ key, (key,lock) ∈ s.held t := by
  have held := ReentrantLock.holdCount_pos.mpr owner
  rw [inv.counted,List.countP_pos_iff] at held
  obtain ⟨e,member,object⟩ := held
  exact ⟨e.1,of_decide_eq_true object ▸ member⟩

end Invariant

/-- Where the cache drops only locks that no thread uses: one thread at a time is between
`lock` and `unLock` of a key, `unLock` gives back the object its thread took, and a lock is
owned only by a thread that has a call of `lock` open through it. -/
theorem lock_exclusion [Fintype T] (maximumSize : Nat) {s : State T K}
    (reached : ((system maximumSize).restrict spares).Reachable s) :
    (∀ key t u, (∃ lock, (key,lock) ∈ s.held t) → (∃ lock, (key,lock) ∈ s.held u) → t = u) ∧
    (∀ t key lock held, s.pc t = .release key lock → (key,held) ∈ s.held t →
      lock = held ∧ (s.locks lock).owner = some t) ∧
    ∀ t lock, (s.locks lock).owner = some t → ∃ key, (key,lock) ∈ s.held t := by
  have inv : Invariant s := by
    apply reached.invariant
    · rintro _ rfl
      exact .init
    · intro s a s' inv stepped
      obtain ⟨spared,stepped⟩ := (System.restrict_step_iff _ _ _ _ _).mp stepped
      exact inv.step spared stepped
  have owned (t : T) (key : K) (lock : Nat) (member : (key,lock) ∈ s.held t) :
      0 < (s.locks lock).holdCount t := by
    rw [inv.counted,List.countP_pos_iff]
    exact ⟨_,member,by simp⟩
  refine ⟨?_,?_,?_⟩
  · rintro key t u ⟨first,one⟩ ⟨second,two⟩
    have same : first = second :=
      Option.some.inj ((inv.kept t _ (.inl one)).symm.trans (inv.kept u _ (.inl two)))
    exact ReentrantLock.holdCount_exclusive (owned t key first one) (same ▸ owned u key second two)
  · intro t key lock held at_release member
    have there := inv.kept t (key,lock) (.inr (by rw [at_release]; rfl))
    have same : lock = held := Option.some.inj (there.symm.trans (inv.kept t _ (.inl member)))
    exact ⟨same,ReentrantLock.holdCount_pos.mp (same ▸ owned t key held member)⟩
  · exact fun t lock owner => inv.owned owner

/-- On its way through `lock` of this key. -/
def Pc.locking (key : K) : Pc K → Prop
  | .check k | .enter k | .recheck k | .put k | .leave k | .lookup k | .acquire k _ => k = key
  | _ => False

variable {s s' : State T K} {t u : T} {key : K}

omit [DecidableEq K] in
theorem goto_pc (s : State T K) (t : T) (pc : Pc K) : (s.goto t pc).pc t = pc := Function.update_self _ _ _

theorem advance_others (other : u ≠ t) (stepped : s.advance t = some s') :
    s'.pc u = s.pc u ∧ s'.held u = s.held u ∧ s'.thrown u = s.thrown u := by
  have apart {β : Type} (f : T → β) (b : β) : Function.update f t b u = f u := Function.update_of_ne other _ _
  unfold State.advance at stepped
  split at stepped
  · cases stepped
  · cases stepped
    exact ⟨apart _ _,rfl,rfl⟩
  · split at stepped
    · cases stepped
      exact ⟨apart _ _,rfl,rfl⟩
    · cases stepped
  · cases stepped
    exact ⟨apart _ _,rfl,rfl⟩
  · cases stepped
    exact ⟨apart _ _,rfl,rfl⟩
  · cases stepped
    exact ⟨apart _ _,rfl,rfl⟩
  · split at stepped
    · cases stepped
      exact ⟨apart _ _,rfl,apart _ _⟩
    · cases stepped
      exact ⟨apart _ _,rfl,rfl⟩
  · obtain ⟨l,-,rfl⟩ := Option.map_eq_some_iff.mp stepped
    exact ⟨apart _ _,apart _ _,rfl⟩
  · split at stepped
    · cases stepped
      exact ⟨apart _ _,apart _ _,rfl⟩
    · cases stepped
      exact ⟨apart _ _,rfl,rfl⟩
  · split at stepped
    · cases stepped
      exact ⟨apart _ _,apart _ _,rfl⟩
    · cases stepped
      exact ⟨apart _ _,apart _ _,apart _ _⟩

theorem call_others {pc : Pc K} (other : u ≠ t) (stepped : s.call t pc = some s') :
    s'.pc u = s.pc u ∧ s'.held u = s.held u ∧ s'.thrown u = s.thrown u := by
  unfold State.call at stepped
  split at stepped
  · cases stepped
    exact ⟨Function.update_of_ne other _ _,rfl,Function.update_of_ne other _ _⟩
  · cases stepped

theorem call_own {pc : Pc K} (stepped : s.call t pc = some s') :
    s'.pc t = pc ∧ s'.held t = s.held t ∧ s'.thrown t = none := by
  unfold State.call at stepped
  split at stepped
  · cases stepped
    exact ⟨Function.update_self _ _ _,rfl,Function.update_self _ _ _⟩
  · cases stepped

theorem advance_locking (locks : (s.pc t).locking key) (stepped : s.advance t = some s') :
    ((s'.pc t).locking key ∧ s'.held t = s.held t ∧ s'.thrown t = s.thrown t) ∨
      (s'.pc t = .idle ∧ s'.thrown t = s.thrown t ∧ ∃ lock, s'.held t = (key,lock) :: s.held t) ∨
      (s'.pc t = .idle ∧ s'.thrown t ≠ none ∧ s'.held t = s.held t) := by
  have here {β : Type} (f : T → β) (b : β) : Function.update f t b t = b := Function.update_self _ _ _
  unfold State.advance at stepped
  split at stepped
  case h_1 at_idle =>
    rw [at_idle] at locks
    exact locks.elim
  case h_9 at_find =>
    rw [at_find] at locks
    exact locks.elim
  case h_10 at_release =>
    rw [at_release] at locks
    exact locks.elim
  case h_2 at_check =>
    rw [at_check] at locks
    cases locks
    cases stepped
    refine .inl ⟨?_,rfl,rfl⟩
    rw [goto_pc]
    split <;> exact rfl
  case h_3 at_enter =>
    rw [at_enter] at locks
    cases locks
    split at stepped
    · cases stepped
      refine .inl ⟨?_,rfl,rfl⟩
      rw [goto_pc]
      exact rfl
    · cases stepped
  case h_4 at_recheck =>
    rw [at_recheck] at locks
    cases locks
    cases stepped
    refine .inl ⟨?_,rfl,rfl⟩
    rw [goto_pc]
    split <;> exact rfl
  case h_5 at_put =>
    rw [at_put] at locks
    cases locks
    cases stepped
    refine .inl ⟨?_,rfl,rfl⟩
    rw [goto_pc]
    exact rfl
  case h_6 at_leave =>
    rw [at_leave] at locks
    cases locks
    cases stepped
    refine .inl ⟨?_,rfl,rfl⟩
    rw [goto_pc]
    exact rfl
  case h_7 at_lookup =>
    rw [at_lookup] at locks
    cases locks
    split at stepped
    · cases stepped
      refine .inr (.inr ⟨goto_pc _ _ _,fun none => ?_,rfl⟩)
      cases (here s.thrown (some (Thrown.runtimeException get_lock_error key))).symm.trans none
    · cases stepped
      refine .inl ⟨?_,rfl,rfl⟩
      rw [goto_pc]
      exact rfl
  case h_8 lock at_acquire =>
    rw [at_acquire] at locks
    cases locks
    obtain ⟨l,-,rfl⟩ := Option.map_eq_some_iff.mp stepped
    exact .inr (.inl ⟨goto_pc _ _ _,rfl,lock,here _ _⟩)

theorem advance_find (inv : Invariant s) {lock : Nat} (at_find : s.pc t = .find key) (mine : (key,lock) ∈ s.held t)
    (stepped : s.advance t = some s') : s'.pc t = .release key lock ∧ s'.held t = s.held t := by
  unfold State.advance at stepped
  rw [at_find] at stepped
  have there := inv.kept t (key,lock) (.inl mine)
  simp only [there] at stepped
  cases stepped
  exact ⟨goto_pc _ _ _,rfl⟩

theorem advance_release {lock : Nat} (at_release : s.pc t = .release key lock) (stepped : s.advance t = some s') :
    s'.pc t = .idle ∧ s'.held t = (s.held t).eraseP (fun e => e.1 = key) := by
  unfold State.advance at stepped
  rw [at_release] at stepped
  simp only at stepped
  split at stepped
  · cases stepped
    exact ⟨goto_pc _ _ _,Function.update_self _ _ _⟩
  · cases stepped
    exact ⟨goto_pc _ _ _,Function.update_self _ _ _⟩

end

/-- All of a call of `lock` that makes the lock. -/
def lockNew (t : Bool) (key : String) : List (Act Bool String) := .lock t key :: List.replicate 7 (.advance t)

/-- While one thread holds a lock the other waits for it, also after another key's lock
was dropped. -/
theorem lock_exclusion_waiting : ∃ s : State Bool String, ((system 1024).restrict spares).Reachable s ∧
    s.pc true = .acquire "session" 0 ∧ ∀ u, (∃ lock, ("session",lock) ∈ s.held u) → false = u := by
  have ran : (((system 1024).restrict spares).exec (State.init : State Bool String)
      (lockNew false "session" ++ lockNew true "store" ++ [.unLock true "store",.advance true,.advance true,
        .expire "store",.lock true "session",.advance true,.advance true])).any
      (fun s => decide (s.pc true = .acquire "session" 0) && decide (("session",0) ∈ s.held false)) = true := by
    decide +kernel
  obtain ⟨s,run,found⟩ := (Option.any_eq_true _ _).mp ran
  simp only [Bool.and_eq_true,decide_eq_true_eq] at found
  have reached : ((system 1024).restrict spares).Reachable s := ⟨_,_,rfl,run⟩
  exact ⟨s,reached,found.1,fun u held => (lock_exclusion 1024 reached).1 "session" false u ⟨0,found.2⟩ held⟩

/-- The entry of a lock that a thread holds expires: a second thread takes a fresh lock
for the key, and the first one's `unLock` throws and leaves its lock owned. -/
theorem lock_overlaps : ∃ s s' : State Bool String,
    (system 1024).Reachable s ∧ ("session",0) ∈ s.held false ∧ ("session",1) ∈ s.held true ∧
    (system 1024).Run s [.unLock false "session",.advance false,.advance false] s' ∧
    s'.thrown false = some .illegalMonitorState ∧ (s'.locks 0).owner = some false ∧ s'.held false = [] := by
  have ran : ((system 1024).exec (State.init : State Bool String)
      (lockNew false "session" ++ .expire "session" :: lockNew true "session")).any
      (fun s => decide (("session",0) ∈ s.held false) && decide (("session",1) ∈ s.held true) &&
        ((system 1024).exec s [.unLock false "session",.advance false,.advance false]).any (fun s' =>
          decide (s'.thrown false = some .illegalMonitorState) &&
          decide ((s'.locks 0).owner = some false) && decide (s'.held false = []))) = true := by
    decide +kernel
  obtain ⟨s,run,found⟩ := (Option.any_eq_true _ _).mp ran
  simp only [Bool.and_eq_true,decide_eq_true_eq] at found
  obtain ⟨⟨first,second⟩,later⟩ := found
  obtain ⟨s',run',found'⟩ := (Option.any_eq_true _ _).mp later
  simp only [Bool.and_eq_true,decide_eq_true_eq] at found'
  exact ⟨s,s',⟨_,_,rfl,run⟩,first,second,run',found'.1.1,found'.1.2,found'.2⟩

end Eggroll.LockUtils
