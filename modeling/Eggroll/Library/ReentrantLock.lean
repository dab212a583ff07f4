import Mathlib.Data.Option.Basic

/-! A reentrant lock: its owner may take it again and gives it back as often. That nobody
owns it exactly when it is held zero times is part of the type. -/
namespace Library
variable {T : Type} [DecidableEq T]

structure ReentrantLock (T : Type) where
  owner : Option T
  holds : Nat
  unowned : owner = none ↔ holds = 0

namespace ReentrantLock

def new : ReentrantLock T := ⟨none,0,by simp⟩

/-- `lock()`; `none` means that the caller waits. -/
def lock (l : ReentrantLock T) (t : T) : Option (ReentrantLock T) :=
  if l.owner = none ∨ l.owner = some t then some ⟨some t,l.holds + 1,by simp⟩ else none

/-- `unlock()`; `none` is the IllegalMonitorStateException of a caller that is not the owner. -/
def unlock (l : ReentrantLock T) (t : T) : Option (ReentrantLock T) :=
  if own : l.owner = some t then
    have held : l.holds ≠ 0 := fun zero => by simp [l.unowned.mpr zero] at own
    some ⟨if l.holds = 1 then none else some t,l.holds - 1,by
      by_cases last : l.holds = 1
      · simp [last]
      · simp only [last,if_false,reduceCtorEq,false_iff]
        omega⟩
  else none

/-- How many calls of `lock` by `t` are open. -/
def holdCount (l : ReentrantLock T) (t : T) : Nat := if l.owner = some t then l.holds else 0

@[simp] theorem holdCount_new (t : T) : (new : ReentrantLock T).holdCount t = 0 := rfl

theorem holdCount_pos {l : ReentrantLock T} {t : T} : 0 < l.holdCount t ↔ l.owner = some t := by
  have := l.unowned
  unfold holdCount
  split
  · rename_i owner
    simp only [owner,reduceCtorEq,false_iff] at this
    simp only [owner,iff_true]
    omega
  · rename_i other
    simp [other]

theorem lock_owner {l l' : ReentrantLock T} {t : T} (locked : l.lock t = some l') :
    (l.owner = none ∨ l.owner = some t) ∧ l'.owner = some t := by
  unfold lock at locked
  split at locked
  · rename_i free
    cases locked
    exact ⟨free,rfl⟩
  · cases locked

theorem lock_waits {l : ReentrantLock T} {t : T} (waits : l.lock t = none) : l.owner ≠ none ∧ l.owner ≠ some t := by
  unfold lock at waits
  split at waits
  · cases waits
  · rename_i taken
    exact not_or.mp taken

theorem unlock_owner {l l' : ReentrantLock T} {t : T} (unlocked : l.unlock t = some l') :
    l.owner = some t ∧ (l'.owner = none ∨ l'.owner = some t) := by
  unfold unlock at unlocked
  split at unlocked
  · rename_i own
    cases unlocked
    refine ⟨own,?_⟩
    dsimp only
    split
    · exact .inl rfl
    · exact .inr rfl
  · cases unlocked

theorem lock_others {l l' : ReentrantLock T} {t u : T} (other : u ≠ t) (locked : l.lock t = some l') :
    l'.owner = some u ↔ l.owner = some u := by
  obtain ⟨before,after⟩ := lock_owner locked
  rw [after]
  refine iff_of_false (fun same => other (Option.some.inj same).symm) fun same => ?_
  rcases before with free | mine
  · rw [free] at same
    cases same
  · exact other (Option.some.inj (same.symm.trans mine))

theorem unlock_others {l l' : ReentrantLock T} {t u : T} (other : u ≠ t) (unlocked : l.unlock t = some l') :
    l'.owner = some u ↔ l.owner = some u := by
  obtain ⟨before,after⟩ := unlock_owner unlocked
  rw [before]
  refine iff_of_false (fun same => ?_) fun same => other (Option.some.inj same).symm
  rcases after with free | mine
  · rw [free] at same
    cases same
  · exact other (Option.some.inj (same.symm.trans mine))

theorem holdCount_exclusive {l : ReentrantLock T} {t u : T} (first : 0 < l.holdCount t)
    (second : 0 < l.holdCount u) : t = u :=
  Option.some.inj ((holdCount_pos.mp first).symm.trans (holdCount_pos.mp second))

theorem lock_holdCount {l l' : ReentrantLock T} {t : T} (locked : l.lock t = some l') (u : T) :
    l'.holdCount u = l.holdCount u + if u = t then 1 else 0 := by
  unfold lock at locked
  split at locked
  · rename_i free
    cases locked
    have := l.unowned
    by_cases same : u = t
    · subst same
      rcases free with free | own
      · simp_all [holdCount]
      · simp [holdCount,own]
    · have other : ¬ some t = some u := by simpa using Ne.symm same
      rcases free with free | own
      · simp [holdCount,free,other,same]
      · simp [holdCount,own,other,same]
  · cases locked

theorem unlock_holdCount {l l' : ReentrantLock T} {t : T} (unlocked : l.unlock t = some l') (u : T) :
    l'.holdCount u + (if u = t then 1 else 0) = l.holdCount u := by
  unfold unlock at unlocked
  split at unlocked
  · rename_i own
    cases unlocked
    have := l.unowned
    by_cases same : u = t
    · subst same
      by_cases last : l.holds = 1
      · simp [holdCount,own,last]
      · have : l.holds ≠ 0 := by simp_all
        simp only [holdCount,last,if_false,own,if_true]
        omega
    · have other : ¬ some t = some u := by simpa using Ne.symm same
      by_cases last : l.holds = 1
      · simp [holdCount,own,last,other,same]
      · simp [holdCount,own,last,other,same]
  · cases unlocked

theorem unlock_isSome {l : ReentrantLock T} {t : T} : (l.unlock t).isSome ↔ 0 < l.holdCount t := by
  rw [holdCount_pos,unlock]
  split <;> simp_all

end ReentrantLock
end Library
