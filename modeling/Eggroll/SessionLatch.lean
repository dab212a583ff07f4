import Mathlib.Data.Fintype.Basic
import Mathlib.Logic.Function.Basic
import Eggroll.Library.System

/-! `blockSession` and `wakeUpSession` of `DefaultSessionManager` for one session: callers that
have created it register a latch each, and the change to ACTIVE wakes them up once. The latches
are held by an `ArrayList` without synchronisation, so that each access to its fields is a step
of its own. -/
namespace Eggroll.Cluster.SessionLatch
open Library

/-- The latches of a `SessionLatchHolder`, each under the number of its caller; `null` is
`none`. The growth of the array is left out, which shows only where calls overlap. -/
structure ArrayList (n : ℕ) where
  elementData : ℕ → Option (Fin n)
  size : ℕ
  modCount : ℕ

def ArrayList.empty (n : ℕ) : ArrayList n := ⟨fun _ => none,0,0⟩

/-- Where a caller of `blockSession` is: at one of the calls on `waitingMap`, in
`countDownLatchs.add(latch)` (`add` counts `modCount` up, `size` and `grow` are the read and the
write of `size++`, `store` is the write to `elementData`), or in `await`, which returns true or
false. -/
inductive Place
  | first_get
  | putIfAbsent
  | second_get
  | add (holder : ℕ)
  | size (holder : ℕ)
  | grow (holder index : ℕ)
  | store (holder index : ℕ)
  | await (holder index : ℕ)
  | released (holder index : ℕ)
  | timed_out
  | raised
deriving Repr, DecidableEq

/-- Where the session is: not ACTIVE yet, or with `wakeUpSession` at one of the calls on
`waitingMap` or in `forEach`, which reads `modCount` and `size` first. -/
inductive Waker
  | inactive
  | check
  | get
  | for_each (holder : ℕ)
  | size (holder expectedModCount : ℕ)
  | loop (holder expectedModCount size i : ℕ)
  | accept (holder expectedModCount size i : ℕ)
  | remove
  | ended
  | raised
deriving Repr, DecidableEq

def Waker.finished : Waker → Bool
  | .ended | .raised => true
  | _ => false

/-- The entry of the session in `waitingMap`, the holders made so far, the callers, and whose
latch has been counted down. -/
structure State (n : ℕ) where
  waitingMap : Option ℕ
  fresh : ℕ
  holders : ℕ → ArrayList n
  callers : Fin n → Place
  counted : Fin n → Bool
  waker : Waker

variable {n : ℕ}

namespace State

def start (n : ℕ) : State n :=
  ⟨none,0,fun _ => .empty n,fun _ => .first_get,fun _ => false,.inactive⟩

def move (s : State n) (i : Fin n) (place : Place) : State n :=
  { s with callers := Function.update s.callers i place }

def edit (s : State n) (holder : ℕ) (list : ArrayList n) : State n :=
  { s with holders := Function.update s.holders holder list }

def block (s : State n) (i : Fin n) : Option (State n) :=
  match s.callers i with
  | .first_get =>
    match s.waitingMap with
    | none => some (s.move i .putIfAbsent)
    | some _ => some (s.move i .second_get)
  | .putIfAbsent =>
    match s.waitingMap with
    | none => some ({ s with waitingMap := some s.fresh, fresh := s.fresh + 1 }.move i .second_get)
    | some _ => some (s.move i .second_get)
  | .second_get =>
    match s.waitingMap with
    | none => some (s.move i .raised)
    | some holder => some (s.move i (.add holder))
  | .add holder =>
    let list := s.holders holder
    some ((s.edit holder { list with modCount := list.modCount + 1 }).move i (.size holder))
  | .size holder => some (s.move i (.grow holder (s.holders holder).size))
  | .grow holder index =>
    some ((s.edit holder { s.holders holder with size := index + 1 }).move i (.store holder index))
  | .store holder index =>
    let list := s.holders holder
    some ((s.edit holder { list with elementData := Function.update list.elementData index (some i) }).move i
      (.await holder index))
  | .await holder index => if s.counted i then some (s.move i (.released holder index)) else none
  | .released _ _ | .timed_out | .raised => none

/-- `SessionActiveHandler` and then `wakeUpSession`. -/
def wake (s : State n) : Option (State n) :=
  match s.waker with
  | .inactive => some { s with waker := .check }
  | .check => some { s with waker := if s.waitingMap.isSome then .get else .ended }
  | .get =>
    match s.waitingMap with
    | none => some { s with waker := .raised }
    | some holder => some { s with waker := .for_each holder }
  | .for_each holder => some { s with waker := .size holder (s.holders holder).modCount }
  | .size holder expectedModCount =>
    some { s with waker := .loop holder expectedModCount (s.holders holder).size 0 }
  | .loop holder expectedModCount size i =>
    if (s.holders holder).modCount = expectedModCount then
      some { s with waker := if i < size then .accept holder expectedModCount size i else .remove }
    else some { s with waker := .raised }
  | .accept holder expectedModCount size i =>
    match (s.holders holder).elementData i with
    | none => some { s with waker := .raised }
    | some latch =>
      some { s with
        counted := Function.update s.counted latch true
        waker := .loop holder expectedModCount size (i + 1) }
  | .remove => some { s with waitingMap := none, waker := .ended }
  | .ended | .raised => none

end State

/-- A step of a caller or of the wake-up, or the end of a caller's timeout, which comes after
whatever the wake-up does. -/
inductive Label (n : ℕ)
  | caller (i : Fin n)
  | waker
  | timeout (i : Fin n)
deriving Repr, DecidableEq

def State.expire (s : State n) (i : Fin n) : Option (State n) :=
  match s.callers i with
  | .await _ _ => if s.waker.finished && !s.counted i then some (s.move i .timed_out) else none
  | _ => none

def latches (n : ℕ) : System (State n) (Label n) where
  start s := s = .start n
  step s label :=
    match label with
    | .caller i => s.block i
    | .waker => s.wake
    | .timeout i => s.expire i

def Place.isReleased : Place → Bool
  | .released _ _ => true
  | _ => false

/-- Nobody has a step left. -/
def Quiet (s : State n) : Prop := ∀ label, (latches n).step s label = none

def Place.adding : Place → Bool
  | .size _ | .grow _ _ | .store _ _ => true
  | _ => false

def Place.listed : Place → Bool
  | .await _ _ | .released _ _ => true
  | _ => false

/-- Each `add` begins when no other one is under way, the wake-up finds the entry, and its
`forEach` begins when the `add` of every caller has returned. -/
def Allowed (s : State n) : Label n → Bool
  | .caller i =>
    match s.callers i with
    | .add _ => decide (∀ j, (s.callers j).adding = false)
    | _ => true
  | .waker =>
    match s.waker with
    | .check => s.waitingMap.isSome || decide (n = 0)
    | .for_each _ => decide (∀ i, (s.callers i).listed = true)
    | _ => true
  | .timeout _ => true

def Place.slot : Place → Option ℕ
  | .grow _ index | .store _ index | .await _ index | .released _ index => some index
  | _ => none

/-- The one holder has address 0; an `add` that has read the size still finds it so, and a latch
that counts lies below it. -/
def Place.Fits (size : ℕ) (counted : Bool) : Place → Prop
  | .first_get | .putIfAbsent | .second_get => True
  | .add holder | .size holder => holder = 0
  | .grow holder index => holder = 0 ∧ index = size
  | .store holder index | .await holder index => holder = 0 ∧ index < size
  | .released holder index => holder = 0 ∧ index < size ∧ counted = true
  | .timed_out | .raised => False

structure Open (s : State n) : Prop where
  absent : s.waitingMap = none → s.fresh = 0 ∧ ∀ i, s.callers i = .first_get ∨ s.callers i = .putIfAbsent
  present : ∀ holder, s.waitingMap = some holder → holder = 0
  places : ∀ i, (s.callers i).Fits (s.holders 0).size (s.counted i)
  alone : ∀ i j, (s.callers i).adding = true → (s.callers j).adding = true → i = j
  distinct : ∀ i j index, (s.callers i).slot = some index → (s.callers j).slot = some index → i = j
  stored : ∀ index i, (s.holders 0).elementData index = some i → (s.callers i).slot = some index
  filled : ∀ index < (s.holders 0).size,
    (∃ i, (s.holders 0).elementData index = some i) ∨ ∃ i, s.callers i = .store 0 index

/-- What a step of a caller leaves as it is. -/
structure Kept (s t : State n) : Prop where
  waker : t.waker = s.waker
  counted : t.counted = s.counted
  entry : s.waitingMap.isSome = true → t.waitingMap = s.waitingMap
  listed : ∀ i, (s.callers i).listed = true → (t.callers i).listed = true
  slot : ∀ i, (s.callers i).listed = true → (t.callers i).slot = (s.callers i).slot
  list : (∀ i, (s.callers i).listed = true) → t.holders 0 = s.holders 0

section
variable {s t : State n} {i j : Fin n} {place : Place} {list : ArrayList n}

@[simp] theorem move_same : (s.move i place).callers i = place := Function.update_self ..

private theorem move_other (other : j ≠ i) : (s.move i place).callers j = s.callers j := Function.update_of_ne other ..

@[simp] theorem edit_same : (s.edit 0 list).holders 0 = list := by
  simp [State.edit]

@[simp] theorem move_holders : (s.move i place).holders = s.holders := rfl

@[simp] theorem edit_callers : (s.edit 0 list).callers = s.callers := rfl

@[simp] theorem move_counted : (s.move i place).counted = s.counted := rfl

@[simp] theorem edit_counted : (s.edit 0 list).counted = s.counted := rfl

private theorem edit_self : s.edit 0 (s.holders 0) = s := by
  rw [State.edit,Function.update_eq_self]

private theorem pairs_move {P : Place → Prop} (before : ∀ j k, P (s.callers j) → P (s.callers k) → j = k)
    (own : P place → ∀ j ≠ i, ¬ P (s.callers j)) (j k : Fin n) (left : P ((s.move i place).callers j))
    (right : P ((s.move i place).callers k)) : j = k := by
  by_cases first : j = i
  · by_contra differ
    have second : k ≠ i := fun same => differ (first.trans same.symm)
    rw [first,move_same] at left
    rw [move_other second] at right
    exact own left k second right
  · rw [move_other first] at left
    by_cases second : k = i
    · rw [second,move_same] at right
      exact absurd left (own right j first)
    · rw [move_other second] at right
      exact before j k left right

theorem Open.move (inv : Open s) (there : s.waitingMap = some 0) (fits : place.Fits list.size (s.counted i))
    (others : ∀ j ≠ i, (s.callers j).Fits (s.holders 0).size (s.counted j) → (s.callers j).Fits list.size (s.counted j))
    (alone : place.adding = true → ∀ j ≠ i, (s.callers j).adding = false)
    (own : ∀ index, place.slot = some index → ∀ j ≠ i, (s.callers j).slot ≠ some index)
    (stored : ∀ index j, list.elementData index = some j → ((s.move i place).callers j).slot = some index)
    (filled : ∀ index < list.size,
      (∃ j, list.elementData index = some j) ∨ ∃ j, (s.move i place).callers j = .store 0 index) :
    Open ((s.edit 0 list).move i place) := by
  constructor
  · intro absent
    exact absurd (there.symm.trans absent) (by simp)
  · exact inv.present
  · intro j
    by_cases same : j = i
    · subst same
      simpa using fits
    · rw [move_other same]
      simpa using others j same (inv.places j)
  · apply pairs_move (P := fun place => place.adding = true) inv.alone
    intro adding j other
    simp [alone adding j other]
  · intro j k index
    apply pairs_move (P := fun place => place.slot = some index) (fun j k => inv.distinct j k index)
    intro slot j other
    exact own index slot j other
  · intro index j found
    rw [move_holders,edit_same] at found
    exact stored index j found
  · intro index below
    rw [move_holders,edit_same] at below ⊢
    exact filled index below

theorem Kept.move (listed : (s.callers i).listed = true → place.listed = true ∧ place.slot = (s.callers i).slot)
    (same_ : (s.callers i).listed = true → list = s.holders 0) : Kept s ((s.edit 0 list).move i place) := by
  refine ⟨rfl,rfl,fun _ => rfl,?_,?_,fun all => ?_⟩
  · intro j before
    by_cases same : j = i
    · subst same
      simpa using (listed before).1
    · rwa [move_other same]
  · intro j before
    by_cases same : j = i
    · subst same
      simpa using (listed before).2
    · rw [move_other same]
      rfl
  · simpa using same_ (all i)

theorem Open.entry (inv : Open s) (first : s.callers i ≠ .first_get) (second : s.callers i ≠ .putIfAbsent) :
    s.waitingMap = some 0 := by
  cases entry : s.waitingMap with
  | none =>
    rcases (inv.absent entry).2 i with there | there
    · exact absurd there first
    · exact absurd there second
  | some holder => rw [inv.present holder entry]

theorem Open.own (inv : Open s) {index : ℕ} (slot : (s.callers i).slot = some index) (j : Fin n) (other : j ≠ i) :
    (s.callers j).slot ≠ some index := fun taken => other (inv.distinct j i index taken slot)

theorem Open.pass (inv : Open s) (there : s.waitingMap = some 0) (size : list.size = (s.holders 0).size)
    (data : list.elementData = (s.holders 0).elementData) (unstored : ∀ index, s.callers i ≠ .store 0 index)
    (fits : place.Fits (s.holders 0).size (s.counted i))
    (alone : place.adding = true → ∀ j ≠ i, (s.callers j).adding = false)
    (kept : ∀ index, (s.callers i).slot = some index → place.slot = some index)
    (own : ∀ index, place.slot = some index → ∀ j ≠ i, (s.callers j).slot ≠ some index) :
    Open ((s.edit 0 list).move i place) := by
  apply inv.move there
  · rwa [size]
  · intro j _ fits
    rwa [size]
  · exact alone
  · exact own
  · intro index j found
    rw [data] at found
    have lies := inv.stored index j found
    by_cases same : j = i
    · subst same
      rw [move_same]
      exact kept index lies
    · rwa [move_other same]
  · intro index below
    rw [size] at below
    rw [data]
    apply (inv.filled index below).imp id
    rintro ⟨j,storing⟩
    refine ⟨j,?_⟩
    rw [move_other]
    · exact storing
    · rintro rfl
      exact unstored index storing

theorem Place.unlisted (early : place.slot = none) : place.listed = false := by
  cases place <;> first | rfl | cases early

private theorem Open.approach (inv : Open s) (there : s.waitingMap = some 0) (early : (s.callers i).slot = none)
    (fits : place.Fits (s.holders 0).size (s.counted i)) (still : place.slot = none)
    (outside : place.adding = false) : Open (s.move i place) ∧ Kept s (s.move i place) := by
  rw [← edit_self (s := s.move i place)]
  constructor
  · apply inv.pass there rfl rfl
    · intro index storing
      rw [storing] at early
      cases early
    · exact fits
    · intro adding
      rw [outside] at adding
      cases adding
    · intro index slot
      rw [early] at slot
      cases slot
    · intro index slot
      rw [still] at slot
      cases slot
  · apply Kept.move <;> simp [Place.unlisted early]

theorem Open.allocate (inv : Open s) (entry : s.waitingMap = none) :
    Open { s with waitingMap := some s.fresh, fresh := s.fresh + 1 } := by
  obtain ⟨fresh,_⟩ := inv.absent entry
  constructor
  · intro absent
    cases absent
  · intro holder found
    rw [← Option.some.inj found,fresh]
  · exact inv.places
  · exact inv.alone
  · exact inv.distinct
  · exact inv.stored
  · exact inv.filled

theorem Place.Fits.grow {size : ℕ} {counted : Bool} (fits : place.Fits size counted) (outside : place.adding = false) :
    place.Fits (size + 1) counted := by
  cases place with
  | await holder index => exact ⟨fits.1,Nat.lt_succ_of_lt fits.2⟩
  | released holder index => exact ⟨fits.1,Nat.lt_succ_of_lt fits.2.1,fits.2.2⟩
  | grow => cases outside
  | store => cases outside
  | _ => exact fits

theorem Place.Fits.below {size index : ℕ} {counted : Bool} (fits : place.Fits size counted)
    (outside : place.adding = false) (slot : place.slot = some index) : index < size := by
  cases place with
  | await holder other => exact Option.some.inj slot ▸ fits.2
  | released holder other => exact Option.some.inj slot ▸ fits.2.1
  | grow => cases outside
  | store => cases outside
  | _ => cases slot

end

section
variable {s t : State n} {i : Fin n}

private theorem Open.first_get (inv : Open s) (here : s.callers i = .first_get) (stepped : s.block i = some t) :
    Open t ∧ Kept s t := by
  simp only [State.block,here] at stepped
  cases entry : s.waitingMap with
  | none =>
    rw [entry] at stepped
    obtain rfl := Option.some.inj stepped
    obtain ⟨fresh,early⟩ := inv.absent entry
    have places (j : Fin n) : (s.move i .putIfAbsent).callers j = .first_get ∨
        (s.move i .putIfAbsent).callers j = .putIfAbsent := by
      by_cases same : j = i
      · subst same
        exact .inr move_same
      · rw [move_other same]
        exact early j
    have kept : Kept s ((s.edit 0 (s.holders 0)).move i .putIfAbsent) := by
      apply Kept.move <;> simp [here,Place.listed]
    rw [edit_self] at kept
    refine ⟨⟨fun _ => ⟨fresh,places⟩,inv.present,?_,?_,?_,?_,?_⟩,kept⟩
    · intro j
      rcases places j with there | there <;> rw [there] <;> trivial
    · intro j k left
      rcases places j with there | there <;> rw [there] at left <;> cases left
    · intro j k index left
      rcases places j with there | there <;> rw [there] at left <;> cases left
    · intro index j found
      have lies := inv.stored index j found
      rcases early j with there | there <;> rw [there] at lies <;> cases lies
    · intro index below
      apply (inv.filled index below).imp id
      rintro ⟨j,storing⟩
      rcases early j with there | there <;> rw [there] at storing <;> cases storing
  | some holder =>
    rw [entry] at stepped
    obtain rfl := Option.some.inj stepped
    obtain rfl := inv.present holder entry
    exact inv.approach entry (by rw [here]; rfl) trivial rfl rfl

private theorem Open.putIfAbsent (inv : Open s) (here : s.callers i = .putIfAbsent) (stepped : s.block i = some t) :
    Open t ∧ Kept s t := by
  simp only [State.block,here] at stepped
  cases entry : s.waitingMap with
  | none =>
    rw [entry] at stepped
    obtain rfl := Option.some.inj stepped
    have made := inv.allocate entry
    obtain ⟨fresh,_⟩ := inv.absent entry
    have there : some s.fresh = some 0 := by rw [fresh]
    obtain ⟨next,kept⟩ : Open _ ∧ Kept _ (State.move _ i .second_get) :=
      made.approach there (by rw [here]; rfl) trivial rfl rfl
    refine ⟨next,⟨rfl,rfl,?_,kept.listed,kept.slot,kept.list⟩⟩
    rw [entry]
    simp
  | some holder =>
    rw [entry] at stepped
    obtain rfl := Option.some.inj stepped
    obtain rfl := inv.present holder entry
    exact inv.approach entry (by rw [here]; rfl) trivial rfl rfl

private theorem Open.second_get (inv : Open s) (here : s.callers i = .second_get) (stepped : s.block i = some t) :
    Open t ∧ Kept s t := by
  have entry := inv.entry (i := i) (by rw [here]; simp) (by rw [here]; simp)
  simp only [State.block,here,entry] at stepped
  obtain rfl := Option.some.inj stepped
  exact inv.approach entry (by rw [here]; rfl) rfl rfl rfl

theorem Open.add {holder : ℕ} (inv : Open s) (here : s.callers i = .add holder)
    (free : ∀ j, (s.callers j).adding = false) (stepped : s.block i = some t) : Open t ∧ Kept s t := by
  have entry := inv.entry (i := i) (by rw [here]; simp) (by rw [here]; simp)
  have fits := inv.places i
  rw [here] at fits
  obtain rfl : holder = 0 := fits
  simp only [State.block,here] at stepped
  obtain rfl := Option.some.inj stepped
  constructor
  · apply inv.pass entry
    · exact rfl
    · exact rfl
    · rw [here]
      simp
    · exact rfl
    · intro _ j _
      exact free j
    · rw [here]
      simp [Place.slot]
    · intro index slot
      cases slot
  · apply Kept.move <;> simp [here,Place.listed]

theorem Open.others (inv : Open s) (adding : (s.callers i).adding = true) (j : Fin n) (other : j ≠ i) :
    (s.callers j).adding = false := by
  cases also : (s.callers j).adding with
  | false => rfl
  | true => exact absurd (inv.alone j i also adding) other

theorem Open.size {holder : ℕ} (inv : Open s) (here : s.callers i = .size holder) (stepped : s.block i = some t) :
    Open t ∧ Kept s t := by
  have entry := inv.entry (i := i) (by rw [here]; simp) (by rw [here]; simp)
  have fits := inv.places i
  have others := inv.others (i := i) (by rw [here]; rfl)
  rw [here] at fits
  obtain rfl : holder = 0 := fits
  simp only [State.block,here] at stepped
  obtain rfl := Option.some.inj stepped
  rw [← edit_self (s := s.move i _)]
  constructor
  · apply inv.pass entry rfl rfl
    · rw [here]
      simp
    · exact ⟨rfl,rfl⟩
    · exact fun _ => others
    · rw [here]
      simp [Place.slot]
    · -- the index it reads is free: the slots of the others lie below the size
      intro index slot j other taken
      have below := (inv.places j).below (others j other) taken
      exact Nat.ne_of_lt below (Option.some.inj slot).symm
  · apply Kept.move <;> simp [here,Place.listed]

theorem Open.grow {holder index : ℕ} (inv : Open s) (here : s.callers i = .grow holder index)
    (stepped : s.block i = some t) : Open t ∧ Kept s t := by
  have entry := inv.entry (i := i) (by rw [here]; simp) (by rw [here]; simp)
  have fits := inv.places i
  have others := inv.others (i := i) (by rw [here]; rfl)
  rw [here] at fits
  obtain ⟨rfl,rfl⟩ := fits
  simp only [State.block,here] at stepped
  obtain rfl := Option.some.inj stepped
  constructor
  · apply inv.move entry
    · exact ⟨rfl,Nat.lt_succ_self _⟩
    · intro j other fits
      exact fits.grow (others j other)
    · exact fun _ => others
    · intro index slot
      apply inv.own
      rw [here]
      exact slot
    · intro index j found
      have lies := inv.stored index j found
      by_cases same : j = i
      · subst same
        rw [here] at lies
        rwa [move_same]
      · rwa [move_other same]
    · -- the new index is not filled yet, and this caller is about to
      intro index below
      rcases Nat.lt_succ_iff_lt_or_eq.mp below with old | new
      · apply (inv.filled index old).imp id
        rintro ⟨j,storing⟩
        have adding : (s.callers j).adding = true := by rw [storing]; rfl
        have same := inv.alone j i adding (by rw [here]; rfl)
        rw [same,here] at storing
        cases storing
      · exact .inr ⟨i,by rw [new,move_same]⟩
  · apply Kept.move <;> simp [here,Place.listed]

theorem Open.store {holder index : ℕ} (inv : Open s) (here : s.callers i = .store holder index)
    (stepped : s.block i = some t) : Open t ∧ Kept s t := by
  have entry := inv.entry (i := i) (by rw [here]; simp) (by rw [here]; simp)
  have fits := inv.places i
  rw [here] at fits
  obtain ⟨rfl,below⟩ := fits
  simp only [State.block,here] at stepped
  obtain rfl := Option.some.inj stepped
  constructor
  · apply inv.move entry
    · exact ⟨rfl,below⟩
    · intro j _ fits
      exact fits
    · intro adding
      cases adding
    · intro other slot
      apply inv.own
      rw [here]
      exact slot
    · intro other j found
      change Function.update (s.holders 0).elementData index (some i) other = some j at found
      by_cases same : other = index
      · rw [same,Function.update_self] at found
        rw [← Option.some.inj found,move_same,same]
        rfl
      · rw [Function.update_of_ne same] at found
        have lies := inv.stored other j found
        rw [move_other]
        · exact lies
        · rintro rfl
          rw [here] at lies
          exact same (Option.some.inj lies).symm
    · intro other under
      change (∃ j, Function.update (s.holders 0).elementData index (some i) other = some j) ∨ _
      by_cases same : other = index
      · exact .inl ⟨i,by rw [same,Function.update_self]⟩
      · rw [Function.update_of_ne same]
        apply (inv.filled other under).imp id
        rintro ⟨j,storing⟩
        refine ⟨j,?_⟩
        rw [move_other]
        · exact storing
        · rintro rfl
          rw [here] at storing
          exact same (Place.store.inj storing).2.symm
  · apply Kept.move <;> simp [here,Place.listed]

theorem Open.await {holder index : ℕ} (inv : Open s) (here : s.callers i = .await holder index)
    (stepped : s.block i = some t) : Open t ∧ Kept s t := by
  have entry := inv.entry (i := i) (by rw [here]; simp) (by rw [here]; simp)
  have fits := inv.places i
  rw [here] at fits
  obtain ⟨rfl,below⟩ := fits
  simp only [State.block,here] at stepped
  split at stepped
  · rename_i counted
    obtain rfl := Option.some.inj stepped
    rw [← edit_self (s := s.move i _)]
    constructor
    · apply inv.pass entry rfl rfl
      · rw [here]
        simp
      · exact ⟨rfl,below,counted⟩
      · intro adding
        cases adding
      · rw [here]
        exact fun _ slot => slot
      · intro other slot
        apply inv.own
        rw [here]
        exact slot
    · apply Kept.move <;> simp [here,Place.listed,Place.slot]
  · cases stepped

private theorem Open.block (inv : Open s) (allowed : Allowed s (.caller i) = true) (stepped : s.block i = some t) :
    Open t ∧ Kept s t := by
  cases here : s.callers i with
  | first_get => exact inv.first_get here stepped
  | putIfAbsent => exact inv.putIfAbsent here stepped
  | second_get => exact inv.second_get here stepped
  | add holder =>
    simp only [Allowed,here,decide_eq_true_eq] at allowed
    exact inv.add here allowed stepped
  | size holder => exact inv.size here stepped
  | grow holder index => exact inv.grow here stepped
  | store holder index => exact inv.store here stepped
  | await holder index => exact inv.await here stepped
  | released holder index => simp [State.block,here] at stepped
  | timed_out => simp [State.block,here] at stepped
  | raised => simp [State.block,here] at stepped

end

/-- `forEach` goes through the list, which no longer changes: the latches before `i` have been
counted down. -/
structure Scanning (s : State n) (holder expectedModCount size i : ℕ) : Prop where
  registered : Open s
  holder : holder = 0
  listed : ∀ j, (s.callers j).listed = true
  modCount : (s.holders 0).modCount = expectedModCount
  size : (s.holders 0).size = size
  passed : ∀ j index, (s.callers j).slot = some index → index < i → s.counted j = true

def Done (s : State n) : Prop := ∀ i, (s.callers i).listed = true ∧ s.counted i = true

def Inv (s : State n) : Prop :=
  match s.waker with
  | .inactive | .check => Open s
  | .get => Open s ∧ s.waitingMap = some 0
  | .for_each holder => Open s ∧ holder = 0
  | .size holder expectedModCount =>
    Open s ∧ holder = 0 ∧ (∀ i, (s.callers i).listed = true) ∧ (s.holders 0).modCount = expectedModCount
  | .loop holder expectedModCount size i => Scanning s holder expectedModCount size i
  | .accept holder expectedModCount size i => Scanning s holder expectedModCount size i ∧ i < size
  | .remove | .ended => Done s
  | .raised => False

section
variable {s t : State n} {i : Fin n}

theorem Open.woken (inv : Open s) (waker : Waker) : Open { s with waker := waker } :=
  ⟨inv.absent,inv.present,inv.places,inv.alone,inv.distinct,inv.stored,inv.filled⟩

theorem Place.Fits.counted {place : Place} {size : ℕ} {counted : Bool} (fits : place.Fits size counted) :
    place.Fits size true := by
  cases place with
  | released holder index => exact ⟨fits.1,fits.2.1,rfl⟩
  | _ => exact fits

theorem Open.count (inv : Open s) (latch : Fin n) : Open { s with counted := Function.update s.counted latch true } := by
  refine ⟨inv.absent,inv.present,fun j => ?_,inv.alone,inv.distinct,inv.stored,inv.filled⟩
  by_cases same : j = latch
  · subst same
    simpa using (inv.places j).counted
  · simpa [Function.update_of_ne same] using inv.places j

private theorem Scanning.block {holder expectedModCount size index : ℕ} (scan : Scanning s holder expectedModCount size index)
    (allowed : Allowed s (.caller i) = true) (stepped : s.block i = some t) :
    t.waker = s.waker ∧ Scanning t holder expectedModCount size index := by
  obtain ⟨next,kept⟩ := scan.registered.block allowed stepped
  refine ⟨kept.waker,⟨next,scan.holder,fun j => kept.listed j (scan.listed j),?_,?_,?_⟩⟩
  · rw [kept.list scan.listed]
    exact scan.modCount
  · rw [kept.list scan.listed]
    exact scan.size
  · intro j other slot before
    rw [kept.slot j (scan.listed j)] at slot
    rw [kept.counted]
    exact scan.passed j other slot before

private theorem Done.block (done : Done s) (stepped : s.block i = some t) : t.waker = s.waker ∧ Done t := by
  have listed := (done i).1
  cases here : s.callers i with
  | await holder index =>
    simp only [State.block,here,(done i).2,if_true] at stepped
    obtain rfl := Option.some.inj stepped
    refine ⟨rfl,fun j => ⟨?_,(done j).2⟩⟩
    by_cases same : j = i
    · subst same
      rw [move_same]
      rfl
    · rw [move_other same]
      exact (done j).1
  | released holder index => simp [State.block,here] at stepped
  | _ => rw [here] at listed; cases listed

private theorem Inv.block (inv : Inv s) (allowed : Allowed s (.caller i) = true) (stepped : s.block i = some t) : Inv t := by
  unfold Inv at inv
  cases here : s.waker with
  | inactive =>
    rw [here] at inv
    obtain ⟨next,kept⟩ := Open.block inv allowed stepped
    rw [Inv,kept.waker,here]
    exact next
  | check =>
    rw [here] at inv
    obtain ⟨next,kept⟩ := Open.block inv allowed stepped
    rw [Inv,kept.waker,here]
    exact next
  | get =>
    rw [here] at inv
    obtain ⟨next,kept⟩ := inv.1.block allowed stepped
    rw [Inv,kept.waker,here]
    exact ⟨next,by rw [kept.entry (by rw [inv.2]; rfl)]; exact inv.2⟩
  | for_each holder =>
    rw [here] at inv
    obtain ⟨next,kept⟩ := inv.1.block allowed stepped
    rw [Inv,kept.waker,here]
    exact ⟨next,inv.2⟩
  | size holder expectedModCount =>
    rw [here] at inv
    obtain ⟨registered,zero,listed,same⟩ := inv
    obtain ⟨next,kept⟩ := registered.block allowed stepped
    rw [Inv,kept.waker,here]
    exact ⟨next,zero,fun j => kept.listed j (listed j),by rw [kept.list listed]; exact same⟩
  | loop =>
    rw [here] at inv
    obtain ⟨waker,next⟩ := Scanning.block inv allowed stepped
    rw [Inv,waker,here]
    exact next
  | accept =>
    rw [here] at inv
    obtain ⟨waker,next⟩ := inv.1.block allowed stepped
    rw [Inv,waker,here]
    exact ⟨next,inv.2⟩
  | remove =>
    rw [here] at inv
    obtain ⟨waker,next⟩ := Done.block inv stepped
    rw [Inv,waker,here]
    exact next
  | ended =>
    rw [here] at inv
    obtain ⟨waker,next⟩ := Done.block inv stepped
    rw [Inv,waker,here]
    exact next
  | raised =>
    rw [here] at inv
    exact inv.elim

end

section
variable {s t : State n}

theorem Scanning.done {holder expectedModCount size index : ℕ} (scan : Scanning s holder expectedModCount size index)
    (past : size ≤ index) (i : Fin n) : (s.callers i).listed = true ∧ s.counted i = true := by
  refine ⟨scan.listed i,?_⟩
  have fits := scan.registered.places i
  have listed := scan.listed i
  have passed := scan.passed i
  have whole := scan.size
  cases here : s.callers i with
  | await holder slot =>
    rw [here] at fits passed
    have below := fits.2
    exact passed slot rfl (by omega)
  | released holder slot =>
    rw [here] at fits
    exact fits.2.2
  | _ => rw [here] at listed; cases listed

theorem Scanning.found {holder expectedModCount size index : ℕ} (scan : Scanning s holder expectedModCount size index)
    (more : index < size) : ∃ latch, (s.holders 0).elementData index = some latch := by
  rw [← scan.size] at more
  apply (scan.registered.filled index more).resolve_right
  rintro ⟨i,storing⟩
  have listed := scan.listed i
  rw [storing] at listed
  cases listed

private theorem Inv.wake (inv : Inv s) (allowed : Allowed s .waker = true) (stepped : s.wake = some t) : Inv t := by
  unfold Inv at inv
  cases here : s.waker with
  | inactive =>
    rw [here] at inv
    simp only [State.wake,here] at stepped
    obtain rfl := Option.some.inj stepped
    exact Open.woken inv .check
  | check =>
    rw [here] at inv
    simp only [State.wake,here] at stepped
    obtain rfl := Option.some.inj stepped
    cases there : s.waitingMap.isSome with
    | false =>
      simp only [Allowed,here,there,Bool.false_or,decide_eq_true_eq] at allowed
      subst allowed
      intro i
      exact i.elim0
    | true =>
      obtain ⟨holder,entry⟩ := Option.isSome_iff_exists.mp there
      refine ⟨Open.woken inv .get,?_⟩
      rw [entry,inv.present holder entry]
  | get =>
    rw [here] at inv
    have found : s.wake = some { s with waker := .for_each 0 } := by
      rw [State.wake,here]
      simp only [inv.2]
    obtain rfl := Option.some.inj (found.symm.trans stepped)
    exact ⟨inv.1.woken _,rfl⟩
  | for_each holder =>
    rw [here] at inv
    obtain ⟨registered,rfl⟩ := inv
    simp only [Allowed,here,decide_eq_true_eq] at allowed
    simp only [State.wake,here] at stepped
    obtain rfl := Option.some.inj stepped
    exact ⟨registered.woken _,rfl,allowed,rfl⟩
  | size holder expectedModCount =>
    rw [here] at inv
    obtain ⟨registered,rfl,listed,same⟩ := inv
    simp only [State.wake,here] at stepped
    obtain rfl := Option.some.inj stepped
    refine ⟨registered.woken _,rfl,listed,same,rfl,?_⟩
    intro j index _ before
    cases before
  | loop holder expectedModCount size index =>
    rw [here] at inv
    have scan : Scanning s holder expectedModCount size index := inv
    obtain rfl := scan.holder
    simp only [State.wake,here,scan.modCount,if_true] at stepped
    obtain rfl := Option.some.inj stepped
    by_cases more : index < size
    · rw [if_pos more]
      exact ⟨⟨scan.registered.woken _,rfl,scan.listed,scan.modCount,scan.size,scan.passed⟩,more⟩
    · rw [if_neg more]
      exact fun i => scan.done (Nat.le_of_not_lt more) i
  | accept holder expectedModCount size index =>
    rw [here] at inv
    obtain ⟨scan,more⟩ := inv
    obtain rfl := scan.holder
    -- no `null` is read: whoever has raised the size has stored its latch by now
    obtain ⟨latch,found⟩ := scan.found more
    simp only [State.wake,here,found] at stepped
    obtain rfl := Option.some.inj stepped
    refine ⟨(scan.registered.count latch).woken _,rfl,scan.listed,scan.modCount,scan.size,?_⟩
    intro j other listed before
    change Function.update s.counted latch true j = true
    by_cases same : j = latch
    · rw [same,Function.update_self]
    · rw [Function.update_of_ne same]
      apply scan.passed j other listed
      have differ : other ≠ index := by
        rintro rfl
        exact same (scan.registered.distinct j latch other listed (scan.registered.stored other latch found))
      omega
  | remove =>
    rw [here] at inv
    simp only [State.wake,here] at stepped
    obtain rfl := Option.some.inj stepped
    exact inv
  | ended => simp [State.wake,here] at stepped
  | raised => simp [State.wake,here] at stepped

theorem Inv.expire (inv : Inv s) (i : Fin n) : s.expire i = none := by
  have early (waiting : s.waker.finished = false) : s.expire i = none := by
    cases here : s.callers i <;> simp [State.expire,here,waiting]
  unfold Inv at inv
  cases here : s.waker with
  | ended =>
    rw [here] at inv
    have counted := (inv i).2
    cases there : s.callers i <;> simp [State.expire,there,counted]
  | raised =>
    rw [here] at inv
    exact inv.elim
  | _ => exact early (by rw [here]; rfl)

theorem Inv.start : Inv (State.start n) := by
  constructor
  · intro _
    exact ⟨rfl,fun _ => .inl rfl⟩
  · intro holder found
    cases found
  · intro i
    trivial
  · intro i j adding
    cases adding
  · intro i j index slot
    cases slot
  · intro index i found
    cases found
  · intro index below
    cases below

private theorem allowed_inv (reached : ((latches n).restrict Allowed).Reachable s) : Inv s := by
  apply System.Reachable.invariant _ _ reached
  · intro s started
    obtain rfl : s = .start n := started
    exact Inv.start
  · intro s label t inv stepped
    obtain ⟨allowed,stepped⟩ := (System.restrict_step_iff _ _ _ _ _).mp stepped
    cases label with
    | caller i => exact inv.block allowed stepped
    | waker => exact inv.wake allowed stepped
    | timeout i => exact absurd ((inv.expire i).symm.trans stepped) (by simp)

end

private theorem quiet_iff (s : State n) : Quiet s ↔
    (∀ i, (s.block i).isNone = true ∧ (s.expire i).isNone = true) ∧ s.wake.isNone = true := by
  simp only [Option.isNone_iff_eq_none]
  constructor
  · intro quiet
    exact ⟨fun i => ⟨quiet (.caller i),quiet (.timeout i)⟩,quiet .waker⟩
  · rintro ⟨callers,waker⟩ label
    cases label with
    | caller i => exact (callers i).1
    | waker => exact waker
    | timeout i => exact (callers i).2

private theorem finished_of_wake {s : State n} (still : s.wake = none) : s.waker.finished = true := by
  cases here : s.waker with
  | ended => rfl
  | raised => rfl
  | get => cases entry : s.waitingMap <;> simp [State.wake,here,entry] at still
  | loop holder expectedModCount size i =>
    simp only [State.wake,here] at still
    split at still <;> cases still
  | accept holder expectedModCount size i =>
    cases found : (s.holders holder).elementData i <;> simp [State.wake,here,found] at still
  | _ => simp [State.wake,here] at still

theorem Inv.done {s : State n} (inv : Inv s) (finished : s.waker.finished = true) : Done s := by
  unfold Inv at inv
  cases here : s.waker with
  | ended =>
    rw [here] at inv
    exact inv
  | raised =>
    rw [here] at inv
    exact inv.elim
  | _ => rw [here] at finished; cases finished

theorem Done.released {s : State n} (done : Done s) {i : Fin n} (still : s.block i = none) :
    (s.callers i).isReleased = true := by
  obtain ⟨listed,counted⟩ := done i
  cases here : s.callers i with
  | released holder index => rfl
  | await holder index => simp [State.block,here,counted] at still
  | _ => rw [here] at listed; cases listed

private theorem Inv.open_or_done {s : State n} (inv : Inv s) : Open s ∨ Done s := by
  unfold Inv at inv
  cases here : s.waker with
  | inactive => rw [here] at inv; exact .inl inv
  | check => rw [here] at inv; exact .inl inv
  | get => rw [here] at inv; exact .inl inv.1
  | for_each => rw [here] at inv; exact .inl inv.1
  | size => rw [here] at inv; exact .inl inv.1
  | loop => rw [here] at inv; exact .inl inv.registered
  | accept => rw [here] at inv; exact .inl inv.1.registered
  | remove => rw [here] at inv; exact .inr inv
  | ended => rw [here] at inv; exact .inr inv
  | raised => rw [here] at inv; exact inv.elim

theorem Inv.present {s : State n} (inv : Inv s) (i : Fin n) : s.callers i ≠ .timed_out ∧ s.callers i ≠ .raised := by
  rcases inv.open_or_done with registered | done
  · have fits := registered.places i
    constructor <;> intro there <;> rw [there] at fits <;> exact fits
  · have listed := (done i).1
    constructor <;> intro there <;> rw [there] at listed <;> cases listed

/-- In a run whose steps are all allowed nobody times out or raises, and when nobody has a step
left all callers have been released. -/
theorem woken_up {s : State n} (reached : ((latches n).restrict Allowed).Reachable s) :
    (∀ i, s.callers i ≠ .timed_out ∧ s.callers i ≠ .raised) ∧ (Quiet s → ∀ i, (s.callers i).isReleased = true) := by
  have inv := allowed_inv reached
  refine ⟨inv.present,fun quiet i => ?_⟩
  have done := inv.done (finished_of_wake (quiet .waker))
  exact done.released (quiet (.caller i))

/-- The second caller begins when the first one has made the entry, and the wake-up comes when
both wait. -/
def inTime : List (Label 2) :=
  [List.replicate 3 (.caller 0),[.caller 1,.waker,.caller 1],List.replicate 4 (.caller 0),
    List.replicate 4 (.caller 1),List.replicate 10 .waker,[.caller 0,.caller 1]].flatten

theorem woken_up_both : ∃ s, ((latches 2).restrict Allowed).Run (.start 2) inTime s ∧
    (s.callers 0).isReleased = true ∧ (s.callers 1).isReleased = true := by
  have ran : (((latches 2).restrict Allowed).exec (.start 2) inTime).any (fun s => decide
      ((∀ i, (s.block i).isNone = true ∧ (s.expire i).isNone = true) ∧ s.wake.isNone = true)) = true := by
    decide +kernel
  obtain ⟨s,run,still⟩ := (Option.any_eq_true _ _).mp ran
  have quiet := (quiet_iff s).mpr (of_decide_eq_true still)
  have released := (woken_up ⟨_,inTime,rfl,run⟩).2 quiet
  exact ⟨s,run,released 0,released 1⟩

section
variable {s t : State n} {i : Fin n} {labels : List (Label n)}

private theorem block_moves (stepped : s.block i = some t) : ∃ (middle : State n) (place : Place), t = middle.move i place ∧
    middle.waker = s.waker ∧ middle.counted = s.counted ∧ middle.callers = s.callers ∧
    (place.isReleased = true → s.counted i = true) := by
  cases here : s.callers i with
  | first_get =>
    simp only [State.block,here] at stepped
    split at stepped <;> exact ⟨s,_,(Option.some.inj stepped).symm,rfl,rfl,rfl,by simp [Place.isReleased]⟩
  | putIfAbsent =>
    simp only [State.block,here] at stepped
    split at stepped
    · exact ⟨_,_,(Option.some.inj stepped).symm,rfl,rfl,rfl,by simp [Place.isReleased]⟩
    · exact ⟨s,_,(Option.some.inj stepped).symm,rfl,rfl,rfl,by simp [Place.isReleased]⟩
  | second_get =>
    simp only [State.block,here] at stepped
    split at stepped <;> exact ⟨s,_,(Option.some.inj stepped).symm,rfl,rfl,rfl,by simp [Place.isReleased]⟩
  | await holder index =>
    simp only [State.block,here] at stepped
    split at stepped
    · rename_i counted
      exact ⟨s,_,(Option.some.inj stepped).symm,rfl,rfl,rfl,fun _ => counted⟩
    · cases stepped
  | released holder index => simp [State.block,here] at stepped
  | timed_out => simp [State.block,here] at stepped
  | raised => simp [State.block,here] at stepped
  | _ =>
    simp only [State.block,here] at stepped
    exact ⟨_,_,(Option.some.inj stepped).symm,rfl,rfl,rfl,by simp [Place.isReleased]⟩

/-- The caller waits in vain: it has not been released, and its latch not counted down. -/
def Waiting (s : State n) (i : Fin n) : Prop := s.counted i = false ∧ (s.callers i).isReleased = false

private theorem Waiting.caller {j : Fin n} (waiting : Waiting s i) (stepped : s.block j = some t) :
    t.waker = s.waker ∧ Waiting t i := by
  obtain ⟨middle,place,rfl,waker,counted,callers,released⟩ := block_moves stepped
  refine ⟨waker,by rw [move_counted,counted]; exact waiting.1,?_⟩
  by_cases same : i = j
  · subst same
    rw [move_same]
    cases back : place.isReleased with
    | false => rfl
    | true => exact absurd (released back) (by rw [waiting.1]; simp)
  · rw [move_other same,callers]
    exact waiting.2

private theorem expire_moves {j : Fin n} (stepped : s.expire j = some t) : t = s.move j .timed_out := by
  unfold State.expire at stepped
  split at stepped
  · split at stepped
    · exact (Option.some.inj stepped).symm
    · cases stepped
  · cases stepped

theorem Waiting.timeout {j : Fin n} (waiting : Waiting s i) : Waiting (s.move j .timed_out) i := by
  refine ⟨waiting.1,?_⟩
  by_cases same : i = j
  · subst same
    rw [move_same]
    rfl
  · rw [move_other same]
    exact waiting.2

private theorem Waiting.forever (waiting : Waiting s i) (finished : s.waker.finished = true) (run : (latches n).Run s labels t) :
    Waiting t i := by
  have kept : t.waker.finished = true ∧ Waiting t i := by
    apply run.invariant (P := fun s => s.waker.finished = true ∧ Waiting s i) _ ⟨finished,waiting⟩
    rintro s label t ⟨finished,waiting⟩ stepped
    cases label with
    | caller j =>
      obtain ⟨waker,next⟩ := waiting.caller stepped
      exact ⟨waker ▸ finished,next⟩
    | timeout j =>
      obtain rfl := expire_moves stepped
      exact ⟨finished,waiting.timeout⟩
    | waker =>
      change s.wake = some t at stepped
      cases here : s.waker with
      | ended => simp [State.wake,here] at stepped
      | raised => simp [State.wake,here] at stepped
      | _ => rw [here] at finished; cases finished
  exact kept.2

private theorem wake_early (stepped : s.wake = some t) (early : t.waker = .inactive ∨ t.waker = .check) :
    s.waker = .inactive ∧ t = { s with waker := .check } := by
  unfold State.wake at stepped
  grind

private theorem waiting_before (reached : (latches n).Reachable s) (early : s.waker = .inactive ∨ s.waker = .check) (i : Fin n) :
    Waiting s i := by
  have kept : s.waker = .inactive ∨ s.waker = .check → ∀ i, Waiting s i := by
    apply reached.invariant (P := fun s => s.waker = .inactive ∨ s.waker = .check → ∀ i, Waiting s i)
    · rintro s rfl _ i
      exact ⟨rfl,rfl⟩
    · intro s label t before stepped early i
      cases label with
      | caller j =>
        obtain ⟨middle,place,rfl,waker,_⟩ := block_moves stepped
        exact ((before (waker ▸ early) i).caller stepped).2
      | timeout j =>
        obtain rfl := expire_moves stepped
        exact (before early i).timeout
      | waker =>
        obtain ⟨inactive,rfl⟩ := wake_early stepped early
        exact before (.inl inactive) i
  exact kept early i

theorem woken_in_vain (reached : (latches n).Reachable s) (looking : s.waker = .check) (absent : s.waitingMap = none)
    (run : (latches n).Run s (.waker :: labels) t) (i : Fin n) : (t.callers i).isReleased = false := by
  obtain ⟨next,stepped,rest⟩ := (System.run_cons_iff _ _ _ _ _).mp run
  have waiting := waiting_before reached (.inr looking) i
  change s.wake = some next at stepped
  simp only [State.wake,looking] at stepped
  obtain rfl := Option.some.inj stepped
  have later : Waiting { s with waker := if s.waitingMap.isSome then Waker.get else .ended } i := waiting
  exact (later.forever (by simp [absent,Waker.finished]) rest).2

end

/-- The wake-up finds no entry, and then the caller makes it. -/
def tooEarly : List (Label 1) :=
  [[.waker,.waker],List.replicate 7 (.caller 0),[.timeout 0]].flatten

theorem wake_up_lost : ∃ s, (latches 1).Run (.start 1) tooEarly s ∧ Quiet s ∧ s.callers 0 = .timed_out := by
  have ran : ((latches 1).exec (.start 1) tooEarly).any (fun s => decide
      (((∀ i, (s.block i).isNone = true ∧ (s.expire i).isNone = true) ∧ s.wake.isNone = true) ∧
        s.callers 0 = .timed_out)) = true := by
    decide +kernel
  obtain ⟨s,run,found⟩ := (Option.any_eq_true _ _).mp ran
  obtain ⟨still,lost⟩ := of_decide_eq_true found
  exact ⟨s,run,(quiet_iff s).mpr still,lost⟩

/-- A latch that is added between the pass over the list and the removal of the entry. -/
def tooLate : List (Label 2) :=
  [List.replicate 7 (.caller 0),List.replicate 8 .waker,List.replicate 6 (.caller 1),
    [.waker,.caller 0,.timeout 1]].flatten

example : ((latches 2).exec (.start 2) tooLate).map (fun s => (s.callers 0,s.callers 1)) =
    some (.released 0 0,.timed_out) := by decide +kernel

end Eggroll.Cluster.SessionLatch
