import Mathlib.Data.Finset.Card
import Eggroll.LockUtils

/-! What the locks by key are for: one lock for each key. Where the cache drops no entry of a key that
a thread is taking, has or is giving back, and threads give back only what they have, nothing is
thrown, and `lock` and `unLock` take and give back the lock of their key. -/
namespace Eggroll.LockUtils
open Library

variable {T K : Type}

def Pc.key : Pc K → Option K
  | .idle => none
  | .check key | .enter key | .recheck key | .put key | .leave key | .lookup key | .acquire key _ | .find key
  | .release key _ => some key

/-- On its way through `unLock` of this key. -/
def Pc.unlocking (key : K) : Pc K → Prop
  | .find k | .release k _ => k = key
  | _ => False

def Pc.left : Pc K → ℕ
  | .idle => 8
  | .check _ => 7
  | .enter _ => 6
  | .recheck _ => 5
  | .put _ => 4
  | .leave _ => 3
  | .lookup _ | .find _ => 2
  | .acquire _ _ | .release _ _ => 1

def State.lockOf (s : State T K) (key : K) : ReentrantLock T :=
  match s.entries key with
  | some lock => s.locks lock
  | none => .new

section
variable {s s' : State T K} {t : T} {key : K} {object : ℕ}

@[simp] theorem goto_lockOf (pc : Pc K) [DecidableEq T] : (s.goto t pc).lockOf = s.lockOf := rfl

private theorem lockOf_entry (there : s.entries key = some object) : s.lockOf key = s.locks object := by
  rw [State.lockOf,there]

private theorem lockOf_none (absent : s.entries key = none) : s.lockOf key = .new := by
  rw [State.lockOf,absent]

theorem Pc.locking_key {pc : Pc K} (locks : pc.locking key) : pc.key = some key := by
  cases pc with
  | idle | find | release => exact locks.elim
  | _ => exact congrArg some locks

theorem Pc.unlocking_key {pc : Pc K} (unlocks : pc.unlocking key) : pc.key = some key := by
  cases pc with
  | find | release => exact congrArg some unlocks
  | _ => exact unlocks.elim

end

variable [DecidableEq T] {s s' : State T K} {t : T} {key : K} {object : ℕ}

/-- From the beginning of `lock` to the end of `unLock` of the key. -/
def Busy (s : State T K) (t : T) (key : K) : Prop := (∃ e ∈ s.held t, e.1 = key) ∨ (s.pc t).key = some key

instance [DecidableEq K] (s : State T K) (t : T) (key : K) : Decidable (Busy s t key) := inferInstanceAs (Decidable (_ ∨ _))

/-- Nothing has been thrown, and what a call of `lock` has put it will find. -/
structure Calm (s : State T K) : Prop extends Invariant s where
  present : ∀ t key, s.pc t = .leave key ∨ s.pc t = .lookup key → s.entries key ≠ none
  enters : ∀ t, s.monitor = some t → (s.pc t).inside = true
  used : ∀ key, s.entries key ≠ none → key ∈ s.used
  quiet : ∀ t, s.thrown t = none

theorem Calm.holds (calm : Calm s) (owner : (s.lockOf key).owner = some t) :
    ∃ lock, s.entries key = some lock ∧ (key,lock) ∈ s.held t ∧ (s.locks lock).owner = some t := by
  cases there : s.entries key with
  | none =>
    rw [lockOf_none there] at owner
    cases owner
  | some lock =>
    rw [lockOf_entry there] at owner
    obtain ⟨other,member⟩ := calm.owned owner
    obtain rfl := calm.apart _ _ _ (calm.kept t _ (.inl member)) there
    exact ⟨lock,rfl,member,owner⟩

theorem Calm.owner_lockOf (calm : Calm s) (owner : (s.locks object).owner = some t) :
    ∃ key, (s.lockOf key).owner = some t := by
  obtain ⟨key,member⟩ := calm.owned owner
  refine ⟨key,?_⟩
  rwa [lockOf_entry (calm.kept t _ (.inl member))]

theorem Calm.held_owner (calm : Calm s) (member : (key,object) ∈ s.held t) : (s.lockOf key).owner = some t := by
  rw [lockOf_entry (calm.kept t _ (.inl member)),← ReentrantLock.holdCount_pos,calm.counted,List.countP_pos_iff]
  exact ⟨_,member,by simp⟩

theorem Calm.init : Calm (State.init : State T K) where
  toInvariant := .init
  present _ _ at_ := by simp [State.init] at at_
  enters _ mine := by simp [State.init] at mine
  used _ there := absurd rfl there
  quiet _ := rfl

omit [DecidableEq T] in
theorem init_lockOf : (State.init : State T K).lockOf key = .new := rfl

variable [DecidableEq K]

private theorem Calm.begin (calm : Calm s) {pc : Pc K} (inside : pc.inside = false) (found : pc.found = none)
    (begins : ∀ key, pc ≠ .leave key ∧ pc ≠ .lookup key) (stepped : s.call t pc = some s') :
    Calm s' ∧ s.pc t = .idle ∧ s'.pc t = pc ∧ s'.lockOf = s.lockOf := by
  have inv := calm.call inside found stepped
  unfold State.call at stepped
  split at stepped
  case isFalse => cases stepped
  case isTrue idle =>
    cases stepped
    refine ⟨⟨inv,fun u key at_ => ?_,fun u mine => ?_,calm.used,fun u => ?_⟩,idle,goto_pc _ _ _,rfl⟩
    · simp only [State.goto,Function.update_apply] at at_
      split at at_
      · exact (at_.elim (begins key).1 (begins key).2).elim
      · exact calm.present u key at_
    · by_cases same : u = t
      · subst same
        have := calm.enters u mine
        rw [idle] at this
        cases this
      · simpa [State.goto,Function.update_of_ne same] using calm.enters u mine
    · by_cases same : u = t
      · subst same
        simp
      · simpa [Function.update_of_ne same] using calm.quiet u

theorem Calm.lock (calm : Calm s) (stepped : s.call t (.check key) = some s') :
    Calm s' ∧ s.pc t = .idle ∧ s'.pc t = .check key ∧ s'.lockOf = s.lockOf :=
  calm.begin rfl rfl (by simp) stepped

theorem Calm.unLock (calm : Calm s) (stepped : s.call t (.find key) = some s') :
    Calm s' ∧ s.pc t = .idle ∧ s'.pc t = .find key ∧ s'.lockOf = s.lockOf :=
  calm.begin rfl rfl (by simp) stepped

omit [DecidableEq K] in
private theorem eq_new {l : ReentrantLock T} (free : ∀ t, l.holdCount t = 0) : l = .new := by
  obtain ⟨owner,holds,unowned⟩ := l
  cases owner with
  | none =>
    obtain rfl := unowned.mp rfl
    rfl
  | some t =>
    have := free t
    simp only [ReentrantLock.holdCount,if_true] at this
    cases unowned.mpr this

theorem Calm.drop (calm : Calm s) (spared : ∀ t, ¬ Busy s t key) : Calm (s.drop key) ∧ (s.drop key).lockOf = s.lockOf := by
  have unused (u : T) : ¬ Uses s u key := by
    rintro (held | ⟨e,found,is⟩)
    · exact spared u (.inl held)
    · refine spared u (.inr ?_)
      revert found
      cases s.pc u with
      | acquire | release =>
        rintro ⟨⟩
        exact congrArg some is
      | _ => nofun
  refine ⟨⟨calm.toInvariant.drop unused,fun u other at_ => ?_,calm.enters,fun other there => ?_,calm.quiet⟩,funext fun other => ?_⟩
  · have different : other ≠ key := by
      rintro rfl
      refine spared u (.inr ?_)
      change s.pc u = _ ∨ s.pc u = _ at at_
      obtain is | is := at_ <;> rw [is] <;> rfl
    simp only [State.drop,Function.update_of_ne different]
    exact calm.present u other at_
  · simp only [State.drop,Function.update_apply] at there
    split at there
    · exact absurd rfl there
    · exact calm.used other there
  · by_cases same : other = key
    · subst same
      rw [lockOf_none (by simp [State.drop])]
      cases there : s.entries other with
      | none => rw [lockOf_none there]
      | some lock =>
        rw [lockOf_entry there]
        refine (eq_new fun u => ?_).symm
        rw [calm.counted,List.countP_eq_zero]
        intro e member object
        have is := (calm.held_lock there member).mpr (of_decide_eq_true object)
        exact spared u (.inl ⟨e,member,is⟩)
    · simp [State.lockOf,State.drop,Function.update_of_ne same]

def State.size (s : State T K) : ℕ := (s.used.toFinset.filter fun key => (s.entries key).isSome).card

theorem Calm.drop_size (calm : Calm s) (there : (s.entries key).isSome) : (s.drop key).size < s.size := by
  refine Finset.card_lt_card ((Finset.ssubset_iff_of_subset fun other mem => ?_).mpr ⟨key,?_,?_⟩)
  · simp only [Finset.mem_filter,State.drop,Function.update_apply] at mem ⊢
    obtain ⟨known,kept⟩ := mem
    split at kept
    · cases kept
    · exact ⟨known,kept⟩
  · have used := calm.used key (Option.isSome_iff_ne_none.mp there)
    exact Finset.mem_filter.mpr ⟨List.mem_toFinset.mpr used,there⟩
  · rw [Finset.mem_filter]
    simp [State.drop]

private theorem Calm.moved (calm : Calm s) (stepped : s.advance t = some s')
    (entries : ∀ key, s.entries key ≠ none → s'.entries key ≠ none)
    (present : ∀ key, s'.pc t = .leave key ∨ s'.pc t = .lookup key → s'.entries key ≠ none)
    (monitor : ∀ u, s'.monitor = some u → (u = t ∧ (s'.pc t).inside = true) ∨ u ≠ t ∧ s.monitor = some u)
    (used : ∀ key, s'.entries key ≠ none → key ∈ s'.used) (quiet : s'.thrown t = s.thrown t) : Calm s' := by
  refine ⟨calm.advance stepped,fun u key at_ => ?_,fun u mine => ?_,used,fun u => ?_⟩
  · by_cases same : u = t
    · exact present key (same ▸ at_)
    · rw [(advance_others same stepped).1] at at_
      exact entries key (calm.present u key at_)
  · obtain ⟨rfl,inside⟩ | ⟨other,before⟩ := monitor u mine
    · exact inside
    · rw [(advance_others other stepped).1]
      exact calm.enters u before
  · by_cases same : u = t
    · subst same
      rw [quiet]
      exact calm.quiet u
    · rw [(advance_others same stepped).2.2]
      exact calm.quiet u

/-- What a step of a call comes to: it goes on, or it takes or gives back the lock of its key. -/
inductive Outcome (s s' : State T K) (t : T) : Prop
  | goes (busy : s'.pc t ≠ .idle) (lower : (s'.pc t).left < (s.pc t).left) (locks : s'.lockOf = s.lockOf)
      (locking : ∀ key, (s.pc t).locking key → (s'.pc t).locking key)
      (unlocking : ∀ key, (s.pc t).unlocking key → (s'.pc t).unlocking key)
  | takes (key : K) (lock : ReentrantLock T) (locking : (s.pc t).locking key) (idle : s'.pc t = .idle)
      (taken : (s.lockOf key).lock t = some lock) (locks : s'.lockOf = Function.update s.lockOf key lock)
  | gives (key : K) (lock : ReentrantLock T) (unlocking : (s.pc t).unlocking key) (idle : s'.pc t = .idle)
      (given : (s.lockOf key).unlock t = some lock) (locks : s'.lockOf = Function.update s.lockOf key lock)

private theorem update_lockOf (calm : Calm s) {l : ReentrantLock T} (there : s.entries key = some object)
    (entries : s'.entries = s.entries) (locks : s'.locks = Function.update s.locks object l) :
    s'.lockOf = Function.update s.lockOf key l := by
  funext other
  by_cases same : other = key
  · subst same
    rw [Function.update_self,lockOf_entry (entries ▸ there),locks,Function.update_self]
  · rw [Function.update_of_ne same]
    cases found : s.entries other with
    | none => rw [lockOf_none found,lockOf_none (entries ▸ found)]
    | some other =>
      have different : other ≠ object := by
        rintro rfl
        exact same (calm.apart _ _ _ found there)
      rw [lockOf_entry found,lockOf_entry (entries ▸ found),locks,Function.update_of_ne different]

private theorem store_lockOf (calm : Calm s) (absent : s.entries key = none) : (s.store key).lockOf = s.lockOf := by
  funext other
  by_cases same : other = key
  · subst same
    have made : (s.store other).entries other = some s.next := by simp [State.store]
    rw [lockOf_none absent,lockOf_entry made]
    simp [State.store]
  · cases found : s.entries other with
    | none => rw [lockOf_none found,lockOf_none (by simpa [State.store,same] using found)]
    | some old =>
      have made := calm.made _ _ found
      have kept : (s.store key).entries other = some old := by simpa [State.store,same] using found
      rw [lockOf_entry found,lockOf_entry kept]
      simp [State.store,Nat.ne_of_lt made]

private theorem Calm.goto (calm : Calm s) {pc : Pc K} (stepped : s.advance t = some (s.goto t pc)) (busy : pc ≠ .idle)
    (lower : pc.left < (s.pc t).left) (inside : pc.inside = (s.pc t).inside)
    (present : ∀ key, pc = .leave key ∨ pc = .lookup key → s.entries key ≠ none)
    (locking : ∀ key, (s.pc t).locking key → pc.locking key)
    (unlocking : ∀ key, (s.pc t).unlocking key → pc.unlocking key) :
    Calm (s.goto t pc) ∧ Outcome s (s.goto t pc) t := by
  have there : (s.goto t pc).pc t = pc := goto_pc s t pc
  refine ⟨calm.moved stepped (fun _ => id) (by rwa [there]) (fun u mine => ?_) calm.used rfl,
    .goes (by rwa [there]) (by rwa [there]) rfl (by rwa [there]) (by rwa [there])⟩
  by_cases same : u = t
  · subst same
    refine .inl ⟨rfl,?_⟩
    rw [there,inside]
    exact calm.enters u mine
  · exact .inr ⟨same,mine⟩

theorem Calm.goes (calm : Calm s) (mine : ∀ key, (s.pc t).unlocking key → (s.lockOf key).owner = some t)
    (stepped : s.advance t = some s') : Calm s' ∧ Outcome s s' t := by
  have outside (at_ : (s.pc t).inside = false) : s.monitor ≠ some t := by
    intro inside
    rw [calm.enters t inside] at at_
    cases at_
  have whole := stepped
  unfold State.advance at stepped
  split at stepped
  case h_1 => cases stepped
  case h_2 key at_check =>
    cases stepped
    by_cases absent : s.entries key = none
    · rw [if_pos (by rw [absent]; rfl)] at whole ⊢
      exact calm.goto whole (by simp) (by simp [at_check,Pc.left]) (by rw [at_check]; rfl) (by simp)
        (by simp [at_check,Pc.locking]) (by simp [at_check,Pc.unlocking])
    · rw [if_neg (by rwa [Option.isNone_iff_eq_none])] at whole ⊢
      refine calm.goto whole (by simp) (by simp [at_check,Pc.left]) (by rw [at_check]; rfl) ?_
        (by simp [at_check,Pc.locking]) (by simp [at_check,Pc.unlocking])
      rintro _ (⟨⟨⟩⟩ | ⟨⟨⟩⟩)
      exact absent
  case h_3 key at_enter =>
    split at stepped
    case isFalse => cases stepped
    case isTrue free =>
      cases stepped
      have there : ({ s with monitor := some t }.goto t (.recheck key)).pc t = .recheck key := goto_pc _ _ _
      refine ⟨calm.moved whole (fun _ => id) (by simp [there]) (fun u now => ?_) calm.used rfl,
        .goes (by simp [there]) (by simp [there,at_enter,Pc.left]) rfl (by simp [there,at_enter,Pc.locking])
          (by simp [there,at_enter,Pc.unlocking])⟩
      cases now
      exact .inl ⟨rfl,by rw [there]; rfl⟩
  case h_4 key at_recheck =>
    cases stepped
    by_cases absent : s.entries key = none
    · rw [if_pos (by rw [absent]; rfl)] at whole ⊢
      exact calm.goto whole (by simp) (by simp [at_recheck,Pc.left]) (by rw [at_recheck]; rfl) (by simp)
        (by simp [at_recheck,Pc.locking]) (by simp [at_recheck,Pc.unlocking])
    · rw [if_neg (by rwa [Option.isNone_iff_eq_none])] at whole ⊢
      refine calm.goto whole (by simp) (by simp [at_recheck,Pc.left]) (by rw [at_recheck]; rfl) ?_
        (by simp [at_recheck,Pc.locking]) (by simp [at_recheck,Pc.unlocking])
      rintro _ (⟨⟨⟩⟩ | ⟨⟨⟩⟩)
      exact absent
  case h_5 key at_put =>
    cases stepped
    have there : ((s.store key).goto t (.leave key)).pc t = .leave key := goto_pc _ _ _
    have absent := calm.absent t key at_put
    have stored (other : K) : (s.store key).entries other ≠ none ↔ other = key ∨ s.entries other ≠ none := by
      by_cases same : other = key
      · simp [State.store,same]
      · simp [State.store,same]
    refine ⟨calm.moved whole (fun other known => (stored other).mpr (.inr known)) ?_ (fun u now => ?_) (fun other known => ?_) rfl,
      .goes (by simp [there]) (by simp [there,at_put,Pc.left]) (store_lockOf calm absent)
        (by simp [there,at_put,Pc.locking]) (by simp [there,at_put,Pc.unlocking])⟩
    · rw [there]
      rintro _ (⟨⟨⟩⟩ | ⟨⟨⟩⟩)
      exact (stored key).mpr (.inl rfl)
    · by_cases same : u = t
      · exact .inl ⟨same,by rw [there]; rfl⟩
      · exact .inr ⟨same,now⟩
    · change other ∈ s.used.insert key
      rw [List.mem_insert_iff]
      exact ((stored other).mp known).imp id (calm.used other)
  case h_6 key at_leave =>
    cases stepped
    have there : ({ s with monitor := none }.goto t (.lookup key)).pc t = .lookup key := goto_pc _ _ _
    refine ⟨calm.moved whole (fun _ => id) ?_ (fun u now => ?_) calm.used rfl,
      .goes (by simp [there]) (by simp [there,at_leave,Pc.left]) rfl (by simp [there,at_leave,Pc.locking])
        (by simp [there,at_leave,Pc.unlocking])⟩
    · rw [there]
      rintro _ (⟨⟨⟩⟩ | ⟨⟨⟩⟩)
      exact calm.present t key (.inl at_leave)
    · cases now
  case h_7 key at_lookup =>
    split at stepped
    case h_1 absent => exact absurd absent (calm.present t key (.inr at_lookup))
    case h_2 object there =>
      cases stepped
      exact calm.goto whole (by simp) (by simp [at_lookup,Pc.left]) (by rw [at_lookup]; rfl) (by simp)
        (by simp [at_lookup,Pc.locking]) (by simp [at_lookup,Pc.unlocking])
  case h_8 key object at_acquire =>
    obtain ⟨lock,taken,rfl⟩ := Option.map_eq_some_iff.mp stepped
    have there := calm.kept t (key,object) (.inr (by rw [at_acquire]; rfl))
    refine ⟨calm.moved whole (fun _ => id) ?_ (fun u now => ?_) calm.used rfl,
      .takes key lock (by rw [at_acquire]; rfl) (goto_pc s t .idle) (by rwa [lockOf_entry there])
        (update_lockOf calm there rfl rfl)⟩
    · simp [State.goto]
    · refine .inr ⟨?_,now⟩
      rintro rfl
      exact outside (by rw [at_acquire]; rfl) now
  case h_9 key at_find =>
    obtain ⟨object,there,-⟩ := calm.holds (mine key (by rw [at_find]; rfl))
    simp only [there,Option.some.injEq] at stepped
    subst stepped
    exact calm.goto whole (by simp) (by simp [at_find,Pc.left]) (by rw [at_find]; rfl) (by simp)
      (by simp [at_find,Pc.locking]) (by simp [at_find,Pc.unlocking])
  case h_10 key object at_release =>
    have there := calm.kept t (key,object) (.inr (by rw [at_release]; rfl))
    have own := mine key (by rw [at_release]; rfl)
    rw [lockOf_entry there,← ReentrantLock.holdCount_pos,← ReentrantLock.unlock_isSome,Option.isSome_iff_exists] at own
    obtain ⟨lock,given⟩ := own
    simp only [given,Option.some.injEq] at stepped
    subst stepped
    refine ⟨calm.moved whole (fun _ => id) ?_ (fun u now => ?_) calm.used rfl,
      .gives key lock (by rw [at_release]; rfl) (goto_pc s t .idle) (by rwa [lockOf_entry there])
        (update_lockOf calm there rfl rfl)⟩
    · simp [State.goto,State.answered]
    · refine .inr ⟨?_,now⟩
      rintro rfl
      exact outside (by rw [at_release]; rfl) now

theorem Calm.moves (calm : Calm s) (busy : s.pc t ≠ .idle)
    (free : ∀ key, (s.pc t).locking key → ((s.lockOf key).lock t).isSome) :
    ∃ u, s.pc u ≠ .idle ∧ (s.advance u).isSome := by
  cases at_ : s.pc t with
  | idle => exact absurd at_ busy
  | acquire key object =>
    have there := calm.kept t (key,object) (.inr (by rw [at_]; rfl))
    have goes := free key (by rw [at_]; rfl)
    rw [lockOf_entry there] at goes
    exact ⟨t,busy,by simpa [State.advance,at_] using goes⟩
  | enter key =>
    cases inside : s.monitor with
    | none => exact ⟨t,busy,by simp [State.advance,at_,inside]⟩
    | some u =>
      have there := calm.enters u inside
      refine ⟨u,fun idle => by simp [idle,Pc.inside] at there,?_⟩
      cases is : s.pc u with
      | recheck | put | leave => simp [State.advance,is]
      | _ => simp [is,Pc.inside] at there
  | check | recheck | put | leave => exact ⟨t,busy,by simp [State.advance,at_]⟩
  | lookup key | find key =>
    refine ⟨t,busy,?_⟩
    cases found : s.entries key with
    | none => simp [State.advance,at_,found]
    | some object => simp [State.advance,at_,found]
  | release key object =>
    refine ⟨t,busy,?_⟩
    cases given : (s.locks object).unlock t with
    | none => simp [State.advance,at_,given]
    | some lock => simp [State.advance,at_,given]

end Eggroll.LockUtils
