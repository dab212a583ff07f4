import Mathlib.Data.List.Count
import Mathlib.Logic.Function.Basic

/-! Reference counts kept beside the objects that they count. The objects stand in a list
that changes one object at a time; a dictionary has an entry for each key that some object
holds, and the entry is the number of these objects. -/
namespace Library
universe u v

section
variable {α : Type u}

/-- One object is replaced: the number of those with the property changes by what the old
and the new one are. -/
theorem countP_replace (p : α → Bool) {objects : List α} {i : ℕ} {old : α} (found : objects[i]? = some old) (new : α) :
    (objects.set i new).countP p + (if p old then 1 else 0) = objects.countP p + if p new then 1 else 0 := by
  obtain ⟨inside,rfl⟩ := List.getElem?_eq_some_iff.mp found
  have positive : p objects[i] = true → 0 < objects.countP p := fun holds =>
    List.countP_pos_iff.mpr ⟨_,List.getElem_mem inside,holds⟩
  rw [List.countP_set inside]
  split
  next holds =>
    have := positive holds
    omega
  next => omega

theorem countP_replace_same (p : α → Bool) {objects : List α} {i : ℕ} {old new : α} (found : objects[i]? = some old)
    (same : p new = p old) : (objects.set i new).countP p = objects.countP p := by
  have counts := countP_replace p found new
  rw [same] at counts
  exact Nat.add_right_cancel counts

theorem countP_replace_lost (p : α → Bool) {objects : List α} {i : ℕ} {old new : α} (found : objects[i]? = some old)
    (lost : p new = false) : (objects.set i new).countP p = objects.countP p - if p old then 1 else 0 := by
  have counts := countP_replace p found new
  rw [lost,if_neg Bool.false_ne_true] at counts
  omega

theorem countP_concat (p : α → Bool) (objects : List α) (new : α) :
    (objects ++ [new]).countP p = objects.countP p + if p new then 1 else 0 := by
  rw [List.countP_append,List.countP_singleton]

end

variable {κ : Type v}

def RefCounted (counts : κ → Option Int) (holders : κ → ℕ) : Prop :=
  ∀ key, counts key = if holders key = 0 then none else some (holders key : Int)

namespace RefCounted
variable {counts : κ → Option Int} {holders : κ → ℕ} (counted : RefCounted counts holders)
include counted

theorem present {key : κ} (held : 0 < holders key) : counts key = some (holders key : Int) := by
  rw [counted,if_neg (Nat.ne_of_gt held)]

theorem absent {key : κ} (free : holders key = 0) : counts key = none := by
  rw [counted,if_pos free]

theorem entry {key : κ} {count : Int} (found : counts key = some count) : count = holders key ∧ 0 < holders key := by
  rw [counted] at found
  split at found
  · cases found
  next held => exact ⟨(Option.some.inj found).symm,Nat.pos_of_ne_zero held⟩

theorem getD (key : κ) : (counts key).getD 0 = holders key := by
  obtain free | held := Nat.eq_zero_or_pos (holders key)
  · rw [counted.absent free,free]
    rfl
  · rw [counted.present held]
    rfl

variable [DecidableEq κ]

theorem acquire (key : κ) : RefCounted (Function.update counts key (some ((counts key).getD 0 + 1)))
    (fun other => holders other + if other = key then 1 else 0) := by
  intro other
  by_cases same : other = key
  · subst same
    rw [Function.update_self,counted.getD]
    simp
  · rw [Function.update_of_ne same,counted]
    simp [same]

theorem release {key : κ} (several : 1 < holders key) :
    RefCounted (Function.update counts key (some ((holders key : Int) - 1)))
      (fun other => holders other - if other = key then 1 else 0) := by
  intro other
  by_cases same : other = key
  · subst same
    have cast : ((holders other - 1 : ℕ) : Int) = holders other - 1 := by omega
    have more : holders other - 1 ≠ 0 := by omega
    rw [Function.update_self]
    simp [more,cast]
  · rw [Function.update_of_ne same,counted]
    simp [same]

theorem release_last {key : κ} (last : holders key = 1) :
    RefCounted (Function.update counts key none) (fun other => holders other - if other = key then 1 else 0) := by
  intro other
  by_cases same : other = key
  · subst same
    simp [last]
  · rw [Function.update_of_ne same,counted]
    simp [same]

omit [DecidableEq κ]

theorem of_same {holders' : κ → ℕ} (same : ∀ key, holders' key = holders key) : RefCounted counts holders' := by
  intro key
  rw [same]
  exact counted key

end RefCounted
end Library
