import Eggroll.LockUtils

/-! Locks that are left behind (`LockUtils.java`). A thread may unlock another key than the one it
has locked and go on owning a lock that nobody gives back. Who comes in by a key still has it for
himself, as long as the cache drops the entry of such a key only when the threads that wait for its
lock will wait forever. -/
namespace Eggroll.LockUtils
open Library

variable {T K : Type} [DecidableEq T] [DecidableEq K]

def Refers (s : State T K) (key : K) (lock : Nat) : Prop :=
  s.entries key = some lock ∨ ∃ t, (s.pc t).found = some (key,lock)

def Dead (s : State T K) (lock : Nat) : Prop :=
  (∀ key, s.entries key ≠ some lock) ∧ ∀ t key, s.pc t ≠ .release key lock

def Holds (s : State T K) (t : T) (key : K) : Prop :=
  ∃ lock, s.entries key = some lock ∧ (s.locks lock).owner = some t

def Taken (s : State T K) (t : T) (lock : Nat) : Prop := ∃ u, u ≠ t ∧ (s.locks lock).owner = some u

/-- What holds whether or not locks are left behind. -/
structure Guarded (s : State T K) : Prop where
  made : ∀ key lock, Refers s key lock → lock < s.next
  apart : ∀ key other lock, Refers s key lock → Refers s other lock → key = other
  monitor : ∀ t, (s.pc t).inside = true → s.monitor = some t
  absent : ∀ t key, s.pc t = .put key → s.entries key = none
  waits : ∀ t key lock, s.pc t = .acquire key lock → s.entries key = some lock ∨ Dead s lock ∧ Taken s t lock

section
variable {s s' : State T K} {t u : T} {key other : K} {lock : Nat}

omit [DecidableEq T] [DecidableEq K] in
theorem Holds.exclusive (first : Holds s t key) (second : Holds s u key) : t = u := by
  obtain ⟨lock,there,mine⟩ := first
  obtain ⟨lock',there',his⟩ := second
  obtain rfl := Option.some.inj (there.symm.trans there')
  exact Option.some.inj (mine.symm.trans his)

namespace Guarded

omit [DecidableEq T] [DecidableEq K] in
theorem init : Guarded (State.init : State T K) where
  made _ _ refers := by simp [Refers,State.init,Pc.found] at refers
  apart _ _ _ refers := by simp [Refers,State.init,Pc.found] at refers
  monitor _ inside := by simp [State.init,Pc.inside] at inside
  absent _ _ at_put := by simp [State.init] at at_put
  waits _ _ _ at_lock := by simp [State.init] at at_lock

omit [DecidableEq K] in
private theorem goto_refers {pc : Pc K} (found : ∀ e, pc.found = some e → s.entries e.1 = some e.2)
    (refers : Refers (s.goto t pc) key lock) : Refers s key lock := by
  obtain there | ⟨u,looked⟩ := refers
  · exact .inl there
  · simp only [State.goto,Function.update_apply] at looked
    split at looked
    · exact .inl (found _ looked)
    · exact .inr ⟨u,looked⟩

omit [DecidableEq K] in
theorem goto (inv : Guarded s) {pc : Pc K} (inside : pc.inside = true → s.monitor = some t)
    (absent : ∀ key, pc = .put key → s.entries key = none)
    (found : ∀ e, pc.found = some e → s.entries e.1 = some e.2) : Guarded (s.goto t pc) where
  made key lock refers := inv.made key lock (goto_refers found refers)
  apart key other lock one two := inv.apart key other lock (goto_refers found one) (goto_refers found two)
  monitor u known := by
    simp only [State.goto,Function.update_apply] at known ⊢
    split at known
    · rename_i same
      exact same ▸ inside known
    · exact inv.monitor u known
  absent u key known := by
    simp only [State.goto,Function.update_apply] at known ⊢
    split at known
    · exact absent key known
    · exact inv.absent u key known
  waits u key lock known := by
    simp only [State.goto,Function.update_apply] at known
    split at known
    · exact .inl (found (key,lock) (by rw [known]; rfl))
    · refine (inv.waits u key lock known).imp_right fun left => ⟨⟨left.1.1,fun v other releases => ?_⟩,left.2⟩
      have dead := left.1
      simp only [State.goto,Function.update_apply] at releases
      split at releases
      · exact dead.1 other (found (other,lock) (by rw [releases]; rfl))
      · exact dead.2 v other releases

omit [DecidableEq K] in
theorem goto_free (inv : Guarded s) {pc : Pc K} (inside : pc.inside = false) (found : pc.found = none) :
    Guarded (s.goto t pc) := by
  apply inv.goto
  · intro known
    rw [inside] at known
    cases known
  · rintro key rfl
    cases inside
  · intro e known
    rw [found] at known
    cases known

omit [DecidableEq T] [DecidableEq K] in
theorem noted (inv : Guarded s) (used : List K) (held : T → List (K × Nat)) (thrown : T → Option (Thrown K)) :
    Guarded { s with used := used, held := held, thrown := thrown } :=
  ⟨inv.made,inv.apart,inv.monitor,inv.absent,inv.waits⟩

omit [DecidableEq T] [DecidableEq K] in
private theorem entry_lt (inv : Guarded s) (there : s.entries key = some lock) : lock < s.next := inv.made key lock (.inl there)

theorem store (inv : Guarded s) (inside : s.pc t = .put key) : Guarded ((s.store key).goto t (.leave key)) := by
  have empty := inv.absent t key inside
  have mine := inv.monitor t (by rw [inside]; rfl)
  -- nobody has looked up an entry of this key
  have before {other : K} {lock : Nat} (refers : Refers ((s.store key).goto t (.leave key)) other lock) :
      Refers s other lock ∨ other = key ∧ lock = s.next := by
    obtain there | ⟨u,looked⟩ := refers
    · simp only [State.goto,State.store,Function.update_apply] at there
      split at there
      · rename_i same
        exact .inr ⟨same,(Option.some.inj there).symm⟩
      · exact .inl (.inl there)
    · simp only [State.goto,State.store,Function.update_apply] at looked
      split at looked
      · cases looked
      · exact .inl (.inr ⟨u,looked⟩)
  constructor
  · intro other lock refers
    obtain old | ⟨-,rfl⟩ := before refers
    · exact Nat.lt_succ_of_lt (inv.made other lock old)
    · exact Nat.lt_succ_self _
  · intro first second lock one two
    obtain old | ⟨rfl,new⟩ := before one <;> obtain old' | ⟨rfl,new'⟩ := before two
    · exact inv.apart first second lock old old'
    · exact absurd (inv.made first lock old) (new' ▸ Nat.lt_irrefl _)
    · exact absurd (inv.made second lock old') (new ▸ Nat.lt_irrefl _)
    · rfl
  · intro u known
    simp only [State.goto,State.store,Function.update_apply] at known ⊢
    split at known
    · rename_i same
      exact same ▸ mine
    · exact inv.monitor u known
  · intro u other known
    simp only [State.goto,State.store,Function.update_apply] at known ⊢
    split at known
    · cases known
    · rename_i different
      have again := inv.monitor u (by rw [known]; rfl)
      exact absurd (Option.some.inj (again.symm.trans mine)) different
  · intro u other lock known
    simp only [State.goto,State.store,Function.update_apply] at known ⊢
    split at known
    · cases known
    have old := inv.made other lock (.inr ⟨u,by rw [known]; rfl⟩)
    refine (inv.waits u other lock known).imp (fun there => ?_) fun left => ⟨⟨fun k => ?_,fun v k => ?_⟩,?_⟩
    · have away : other ≠ key := fun same => by simp [same,empty] at there
      rw [if_neg away]
      exact there
    · dsimp only
      rw [Function.update_apply]
      split
      · exact fun new => Nat.lt_irrefl _ (Option.some.inj new ▸ old)
      · exact left.1.1 k
    · dsimp only
      rw [Function.update_apply]
      split
      · exact fun other => by cases other
      · exact left.1.2 v k
    · obtain ⟨v,another,owns⟩ := left.2
      refine ⟨v,another,?_⟩
      dsimp only
      rw [Function.update_of_ne (Nat.ne_of_lt old)]
      exact owns

omit [DecidableEq K] in
theorem settle (inv : Guarded s) {l : ReentrantLock T} (alive : ¬ Dead s lock) :
    Guarded { s.goto t .idle with locks := Function.update s.locks lock l } := by
  have outside : Guarded (s.goto t .idle) := inv.goto_free rfl rfl
  refine ⟨outside.made,outside.apart,outside.monitor,outside.absent,fun u key lock' known => ?_⟩
  refine (outside.waits u key lock' known).imp_right fun left => ⟨left.1,?_⟩
  obtain ⟨dead,taken⟩ := left
  have different : lock' ≠ lock := by
    rintro rfl
    have waiting : s.pc u = .acquire key lock' := by
      simp only [State.goto,Function.update_apply] at known
      split at known
      · cases known
      · exact known
    obtain there | was := inv.waits u key lock' waiting
    · exact dead.1 key there
    · exact alive was.1
  simp only [Taken,Function.update_of_ne different]
  exact taken

end Guarded

omit [DecidableEq T] [DecidableEq K] in
theorem Holds.keep (holds : Holds s u key) (entries : s'.entries = s.entries)
    (owners : ∀ lock, (s.locks lock).owner = some u → (s'.locks lock).owner = some u) : Holds s' u key := by
  obtain ⟨lock,there,mine⟩ := holds
  exact ⟨lock,entries ▸ there,owners lock mine⟩

theorem Guarded.call (inv : Guarded s) {pc : Pc K} (inside : pc.inside = false) (found : pc.found = none)
    (stepped : s.call t pc = some s') : Guarded s' ∧ ∀ u key, Holds s u key → Holds s' u key := by
  unfold State.call at stepped
  split at stepped
  · cases stepped
    exact ⟨(inv.goto_free inside found).noted s.used s.held _,fun _ _ holds => holds⟩
  · cases stepped

omit [DecidableEq T] in
/-- An entry is dropped whose lock nobody is on the way to, but for threads that wait for another
one and will wait forever. -/
theorem Guarded.drop (inv : Guarded s) (stuck : ∀ t lock, s.pc t = .acquire key lock → Taken s t lock)
    (still : ∀ t lock, s.pc t ≠ .release key lock ∨ ∀ u, s.pc u ≠ .acquire key lock) : Guarded (s.drop key) := by
  have before {k : K} {lock : Nat} (there : (s.drop key).entries k = some lock) : k ≠ key ∧ s.entries k = some lock := by
    simp only [State.drop,Function.update_apply] at there
    split at there
    · cases there
    · rename_i away
      exact ⟨away,there⟩
  have refers {k : K} {lock : Nat} (refers : Refers (s.drop key) k lock) : Refers s k lock :=
    refers.imp_left fun there => (before there).2
  refine ⟨fun k lock known => inv.made k lock (refers known),
    fun first second lock one two => inv.apart first second lock (refers one) (refers two),inv.monitor,
    fun u k known => ?_,fun u k lock known => ?_⟩
  · simp only [State.drop,Function.update_apply]
    split
    · rfl
    · exact inv.absent u k known
  · have looked : Refers s k lock := .inr ⟨u,by rw [show s.pc u = _ from known]; rfl⟩
    by_cases mine : k = key
    · subst mine
      refine .inr ⟨⟨fun other there => ?_,fun v other releases => ?_⟩,stuck u lock known⟩
      · obtain ⟨away,there⟩ := before there
        exact away (inv.apart other k lock (.inl there) looked)
      · obtain rfl := inv.apart other k lock (.inr ⟨v,by rw [show s.pc v = _ from releases]; rfl⟩) looked
        exact (still v lock).elim (fun never => never releases) fun nobody => nobody u known
    · refine (inv.waits u k lock known).imp (fun there => ?_) fun left => ⟨⟨fun other there => ?_,left.1.2⟩,left.2⟩
      · simp only [State.drop,Function.update_of_ne mine]
        exact there
      · exact left.1.1 other (before there).2

omit [DecidableEq T] in
theorem Holds.drop (holds : Holds s u other) (away : other ≠ key) : Holds (s.drop key) u other := by
  obtain ⟨lock,there,mine⟩ := holds
  refine ⟨lock,?_,mine⟩
  simp only [State.drop,Function.update_of_ne away]
  exact there

/-- What a step of a thread leaves, and that `lock` returns with the lock of its key. -/
structure Guarded.Stepped (s s' : State T K) (t : T) : Prop where
  guarded : Guarded s'
  others : ∀ u key, u ≠ t → Holds s u key → Holds s' u key
  comes : ∀ key, (s.pc t).locking key → s'.pc t = .idle → s'.thrown t = none → Holds s' t key

omit [DecidableEq K] in
theorem Guarded.acquire (inv : Guarded s) {l : ReentrantLock T} (at_lock : s.pc t = .acquire key lock)
    (locked : (s.locks lock).lock t = some l) : s.entries key = some lock := by
  obtain there | ⟨-,u,another,owns⟩ := inv.waits t key lock at_lock
  · exact there
  · obtain free | mine := (ReentrantLock.lock_owner locked).1
    · rw [free] at owns
      cases owns
    · exact absurd (Option.some.inj (owns.symm.trans mine)) another

theorem Guarded.advance (inv : Guarded s) (stepped : s.advance t = some s') : Guarded.Stepped s s' t := by
  -- a thread that is still on its way, or not on the way of `lock`
  have onward {s' : State T K} (guarded : Guarded s') (holds : ∀ u key, Holds s u key → Holds s' u key)
      (going : s'.pc t ≠ .idle ∨ ∀ key, ¬ (s.pc t).locking key) : Guarded.Stepped s s' t :=
    ⟨guarded,fun u key _ => holds u key,fun key locks idle _ => (going.elim (· idle) (· key locks)).elim⟩
  unfold State.advance at stepped
  split at stepped
  · cases stepped
  · rename_i key at_check
    cases stepped
    refine onward ?_ (fun _ _ holds => holds) (.inl ?_)
    · split <;> exact inv.goto_free rfl rfl
    · rw [goto_pc]
      split <;> exact fun idle => by cases idle
  · rename_i key at_enter
    split at stepped
    · rename_i free
      cases stepped
      have alone (u : T) : (s.pc u).inside = false := by
        by_contra busy
        have taken := inv.monitor u (by simpa using busy)
        simp [taken] at free
      have entered : Guarded { s with monitor := some t } :=
        ⟨inv.made,inv.apart,fun u busy => by simp [alone u] at busy,inv.absent,inv.waits⟩
      refine onward (entered.goto (fun _ => rfl) (fun _ other => by cases other) (fun _ other => by cases other)) (fun _ _ holds => holds) (.inl ?_)
      rw [goto_pc]
      exact fun idle => by cases idle
    · cases stepped
  · rename_i key at_recheck
    cases stepped
    have mine := inv.monitor t (by rw [at_recheck]; rfl)
    refine onward ?_ (fun _ _ holds => holds) (.inl ?_)
    · split
      · rename_i empty
        refine inv.goto (fun _ => mine) (fun other equal => ?_) fun _ other => by cases other
        cases equal
        exact Option.isNone_iff_eq_none.mp empty
      · exact inv.goto (fun _ => mine) (fun _ other => by cases other) (fun _ other => by cases other)
    · rw [goto_pc]
      split <;> exact fun idle => by cases idle
  · rename_i key at_put
    cases stepped
    refine onward (inv.store at_put) (fun u other holds => ?_) (.inl ?_)
    · obtain ⟨lock,there,owns⟩ := holds
      have away : other ≠ key := fun same => by simp [same,inv.absent t key at_put] at there
      refine ⟨lock,?_,?_⟩
      · simp only [State.goto,State.store,Function.update_of_ne away]
        exact there
      · simp only [State.goto,State.store,Function.update_of_ne (Nat.ne_of_lt (inv.entry_lt there))]
        exact owns
    · rw [goto_pc]
      exact fun idle => by cases idle
  · rename_i key at_leave
    cases stepped
    have mine := inv.monitor t (by rw [at_leave]; rfl)
    have outside : Guarded (s.goto t (.lookup key)) := inv.goto_free rfl rfl
    refine onward ⟨outside.made,outside.apart,fun u busy => ?_,outside.absent,outside.waits⟩
      (fun _ _ holds => holds) (.inl ?_)
    · obtain rfl : t = u := Option.some.inj (mine.symm.trans (outside.monitor u busy))
      simp [State.goto,Pc.inside] at busy
    · rw [goto_pc]
      exact fun idle => by cases idle
  · rename_i key at_lookup
    split at stepped
    · cases stepped
      refine ⟨(inv.goto_free rfl rfl).noted s.used s.held _,fun _ _ _ holds => holds,fun _ _ _ works => ?_⟩
      cases (Function.update_self _ _ _).symm.trans works
    · rename_i lock there
      cases stepped
      refine onward (inv.goto (fun busy => by cases busy) (fun _ other => by cases other) fun e found => ?_) (fun _ _ holds => holds) (.inl ?_)
      · cases found
        exact there
      · rw [goto_pc]
        exact fun idle => by cases idle
  · rename_i key lock at_acquire
    obtain ⟨l,locked,rfl⟩ := Option.map_eq_some_iff.mp stepped
    have there := inv.acquire at_acquire locked
    refine ⟨(inv.settle fun dead => dead.1 key there).noted s.used _ s.thrown,fun u other away holds => ?_,
      fun other locks _ _ => ?_⟩
    · refine holds.keep rfl fun lock' owns => ?_
      simp only [Function.update_apply]
      split
      · rename_i same
        exact (ReentrantLock.lock_others away locked).mpr (same ▸ owns)
      · exact owns
    · rw [at_acquire] at locks
      cases locks
      exact ⟨lock,there,by simpa using (ReentrantLock.lock_owner locked).2⟩
  · rename_i key at_find
    have elsewhere (other : K) : ¬ (s.pc t).locking other := by rw [at_find]; exact id
    split at stepped
    · cases stepped
      exact onward ((inv.goto_free rfl rfl).noted s.used _ s.thrown) (fun _ _ holds => holds) (.inr elsewhere)
    · rename_i lock there
      cases stepped
      refine onward (inv.goto (fun busy => by cases busy) (fun _ other => by cases other) fun e found => ?_) (fun _ _ holds => holds) (.inr elsewhere)
      cases found
      exact there
  · rename_i key lock at_release
    have elsewhere (other : K) : ¬ (s.pc t).locking other := by rw [at_release]; exact id
    split at stepped
    · rename_i l unlocked
      cases stepped
      refine ⟨(inv.settle fun dead => dead.2 t key at_release).noted s.used _ s.thrown,fun u other away holds => ?_,
        fun other locks => (elsewhere other locks).elim⟩
      refine holds.keep rfl fun lock' owns => ?_
      simp only [Function.update_apply]
      split
      · rename_i same
        exact (ReentrantLock.unlock_others away unlocked).mpr (same ▸ owns)
      · exact owns
    · cases stepped
      exact onward ((inv.goto_free rfl rfl).noted s.used _ _) (fun _ _ holds => holds) (.inr elsewhere)

theorem advance_finds (at_find : s.pc t = .find key) (stepped : s.advance t = some s') :
    s'.pc t = .idle ∨ ∃ lock, s'.pc t = .release key lock := by
  unfold State.advance at stepped
  rw [at_find] at stepped
  simp only at stepped
  split at stepped
  · cases stepped
    exact .inl (goto_pc _ _ _)
  · cases stepped
    exact .inr ⟨_,goto_pc _ _ _⟩

end
end Eggroll.LockUtils
