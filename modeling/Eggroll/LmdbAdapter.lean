import Eggroll.Library.RefCount
import Eggroll.Library.System

/-! The class-level dictionaries of `LmdbAdapter` (`_lmdb.py`). Constructors and `close` run
under `env_lock`, one at a time. A constructor that fails after `lmdb.open` leaves an object
with an environment that was never counted, and its finalizer closes it like any other. -/
namespace Eggroll.LmdbAdapter
open Library

section
variable {P : Type} [DecidableEq P]

/-- An object of the class; `isOpen` is history: its constructor has returned and no `close`
of it has come to the end. Environments are numbered. -/
structure Adapter (P : Type) where
  path : P
  env : Option Nat
  isOpen : Bool
deriving Repr, DecidableEq

/-- `opened` environments have been made so far. -/
structure State (P : Type) where
  env_dict : P → Option Nat
  sub_db_dict : P → Option Nat
  count_dict : P → Option Int
  adapters : List (Adapter P)
  opened : Nat

/-- Where a constructor fails: before it has an environment, or in `open_db` of a new one. -/
inductive Fault | early | open_db
deriving Repr, DecidableEq

/-- A constructor runs, or `close` of an object, by whoever calls it; `raises` when a
transaction or a cursor does before the count is looked at. -/
inductive Act (P : Type)
  | init (path : P) (fault : Option Fault)
  | close (i : Nat) (raises : Bool)
deriving Repr, DecidableEq

namespace State

def init : State P where
  env_dict := fun _ => none
  sub_db_dict := fun _ => none
  count_dict := fun _ => none
  adapters := []
  opened := 0

def add (s : State P) (adapter : Adapter P) : State P := { s with adapters := s.adapters ++ [adapter] }

/-- A new environment, and its entries unless `open_db` fails. -/
def create (s : State P) (path : P) (open_db_fails : Bool) : State P :=
  if open_db_fails then { s.add ⟨path,some s.opened,false⟩ with opened := s.opened + 1 }
  else
    { s.add ⟨path,some s.opened,true⟩ with
      opened := s.opened + 1
      env_dict := Function.update s.env_dict path (some s.opened)
      sub_db_dict := Function.update s.sub_db_dict path (some s.opened)
      count_dict := Function.update s.count_dict path (some (0 + 1)) }

def share (s : State P) (path : P) (env : Nat) : State P :=
  match s.sub_db_dict path, s.count_dict path with
  | some _, some count =>
    { s.add ⟨path,some env,true⟩ with count_dict := Function.update s.count_dict path (some (count + 1)) }
  | _, _ => s.add ⟨path,some env,false⟩

def open_ (s : State P) (path : P) (fault : Option Fault) : State P :=
  if fault = some .early then s.add ⟨path,none,false⟩
  else
    match s.env_dict path with
    | none => s.create path (fault == some .open_db)
    | some env => s.share path env

/-- The end of `close`: `self.env = None`. -/
def finish (s : State P) (i : Nat) (adapter : Adapter P) : State P :=
  { s with adapters := s.adapters.set i { adapter with env := none, isOpen := false } }

/-- The three `del` statements, each of which may raise KeyError. -/
def remove (s : State P) (i : Nat) (adapter : Adapter P) : State P :=
  if (s.env_dict adapter.path).isNone then s
  else
    let s := { s with env_dict := Function.update s.env_dict adapter.path none }
    if (s.sub_db_dict adapter.path).isNone then s
    else { s with
      sub_db_dict := Function.update s.sub_db_dict adapter.path none
      count_dict := Function.update s.count_dict adapter.path none }.finish i adapter

def close (s : State P) (i : Nat) (adapter : Adapter P) (raises : Bool) : State P :=
  if adapter.env.isNone || raises then s
  else
    match s.count_dict adapter.path with
    | none => s
    | some count =>
      if count = 0 ∨ count - 1 ≤ 0 then s.remove i adapter
      else { s with count_dict := Function.update s.count_dict adapter.path (some (count - 1)) }.finish i adapter

end State

def system : System (State P) (Act P) where
  start s := s = State.init
  step s
    | .init path fault => some (s.open_ path fault)
    | .close i raises => (s.adapters[i]?).map fun adapter => s.close i adapter raises

def Adapter.on (path : P) (adapter : Adapter P) : Bool := adapter.isOpen && decide (adapter.path = path)

def State.openOn (s : State P) (path : P) : Nat := s.adapters.countP (Adapter.on path)

structure Balanced (s : State P) : Prop where
  count : ∀ path, s.count_dict path = if s.openOn path = 0 then none else some (s.openOn path : Int)
  entry : ∀ path, (s.env_dict path).isSome ↔ 0 < s.openOn path
  shared : ∀ adapter ∈ s.adapters, adapter.isOpen = true → adapter.env.isSome ∧ s.env_dict adapter.path = adapter.env

/-- An entry stays what it is until the last adapter on its path closes. -/
def Keeps (s t : State P) : Prop := ∀ path env, s.env_dict path = some env →
  t.env_dict path = some env ∨ t.env_dict path = none ∧ s.openOn path = 1 ∧ t.openOn path = 0

def Adapter.halfOpened (adapter : Adapter P) : Bool := adapter.env.isSome && !adapter.isOpen

/-- No half-opened adapter is closed while its path has an entry. -/
def careful (s : State P) : Act P → Bool
  | .init _ _ => true
  | .close i raises =>
    raises || (s.adapters[i]?).all fun adapter => !(adapter.halfOpened && (s.count_dict adapter.path).isSome)

private theorem openOn_add (s : State P) (adapter : Adapter P) (path : P) :
    (s.add adapter).openOn path = s.openOn path + if adapter.on path then 1 else 0 :=
  countP_concat (Adapter.on path) s.adapters adapter

private theorem openOn_finish (s : State P) {i : Nat} {adapter : Adapter P} (found : s.adapters[i]? = some adapter) (path : P) :
    (s.finish i adapter).openOn path = s.openOn path - if adapter.on path then 1 else 0 :=
  countP_replace_lost (Adapter.on path) found rfl

private theorem openOn_pos (s : State P) {adapter : Adapter P} (member : adapter ∈ s.adapters) (opened : adapter.isOpen = true) :
    0 < s.openOn adapter.path :=
  List.countP_pos_iff.mpr ⟨adapter,member,by simp [Adapter.on,opened]⟩

structure Inv (s : State P) : Prop extends Balanced s where
  sub_db : ∀ path, (s.sub_db_dict path).isSome = (s.env_dict path).isSome

theorem inv_init : Inv (State.init : State P) where
  count _ := rfl
  entry _ := by simp [State.init,State.openOn]
  shared adapter member := absurd member List.not_mem_nil
  sub_db _ := rfl

theorem Keeps.of_same {s t : State P} (same : t.env_dict = s.env_dict) : Keeps s t := by
  intro path env held
  rw [same]
  exact .inl held

section
variable {s : State P} (inv : Inv s)
include inv

theorem Inv.counted : RefCounted s.count_dict s.openOn := inv.count

private theorem Inv.add_unopened {adapter : Adapter P} (unopened : adapter.isOpen = false) : Inv (s.add adapter) := by
  have same (path : P) : (s.add adapter).openOn path = s.openOn path := by
    rw [openOn_add]
    simp [Adapter.on,unopened]
  refine ⟨⟨inv.counted.of_same same,fun path => ?_,fun other member opened => ?_⟩,inv.sub_db⟩
  · rw [same]
    exact inv.entry path
  · obtain old | rfl := List.mem_append.mp member |>.imp_right List.mem_singleton.mp
    · exact inv.shared other old opened
    · rw [unopened] at opened
      cases opened

omit inv in
private theorem openOn_opened (path : P) (env : Option Nat) (other : P) :
    (s.add ⟨path,env,true⟩).openOn other = s.openOn other + if other = path then 1 else 0 := by
  rw [openOn_add]
  simp [Adapter.on,eq_comm]

theorem Inv.create {path : P} (missing : s.env_dict path = none) (open_db_fails : Bool) :
    Inv (s.create path open_db_fails) := by
  rw [State.create]
  split
  · have added : Inv (s.add ⟨path,some s.opened,false⟩) := inv.add_unopened rfl
    exact ⟨⟨added.count,added.entry,added.shared⟩,added.sub_db⟩
  have unused : s.openOn path = 0 := by
    have entry := inv.entry path
    rw [missing] at entry
    simpa using entry
  have opens := openOn_opened (s := s) path (some s.opened)
  refine ⟨⟨?_,fun other => ?_,fun adapter member opened => ?_⟩,fun other => ?_⟩
  · have acquired := inv.counted.acquire path
    rw [inv.counted.absent unused] at acquired
    exact acquired.of_same opens
  · change (Function.update s.env_dict path (some s.opened) other).isSome ↔ 0 < (s.add _).openOn other
    rw [opens]
    by_cases same : other = path
    · simp [same]
    · simp [same,inv.entry]
  · change adapter.env.isSome ∧ Function.update s.env_dict path (some s.opened) adapter.path = adapter.env
    obtain old | rfl := List.mem_append.mp member |>.imp_right List.mem_singleton.mp
    · have elsewhere : adapter.path ≠ path := by
        intro same
        have used := openOn_pos s old opened
        rw [same] at used
        omega
      rw [Function.update_of_ne elsewhere]
      exact inv.shared adapter old opened
    · simp
  · change (Function.update s.sub_db_dict path (some s.opened) other).isSome =
      (Function.update s.env_dict path (some s.opened) other).isSome
    by_cases same : other = path
    · simp [same]
    · simp [same,inv.sub_db]

theorem Inv.share {path : P} {env : Nat} (held : s.env_dict path = some env) : Inv (s.share path env) := by
  rw [State.share]
  split
  next _ count _ counted =>
    obtain ⟨_,used⟩ := inv.counted.entry counted
    have opens := openOn_opened (s := s) path (some env)
    refine ⟨⟨?_,fun other => ?_,fun adapter member opened => ?_⟩,inv.sub_db⟩
    · have acquired := inv.counted.acquire path
      rw [counted] at acquired
      exact acquired.of_same opens
    · change (s.env_dict other).isSome ↔ 0 < (s.add _).openOn other
      rw [opens,inv.entry]
      by_cases same : other = path
      · simp [same,used]
      · simp [same]
    · obtain old | rfl := List.mem_append.mp member |>.imp_right List.mem_singleton.mp
      · exact inv.shared adapter old opened
      · exact ⟨rfl,held⟩
  · exact inv.add_unopened rfl

theorem Inv.open_ (path : P) (fault : Option Fault) : Inv (s.open_ path fault) := by
  rw [State.open_]
  split
  · exact inv.add_unopened rfl
  split
  next missing => exact inv.create missing _
  next env held => exact inv.share held

omit inv in
private theorem open_keeps (path : P) (fault : Option Fault) : Keeps s (s.open_ path fault) := by
  rw [State.open_]
  split
  · exact .of_same rfl
  split
  next missing =>
    rw [State.create]
    split
    · exact .of_same rfl
    · intro other env held
      have elsewhere : other ≠ path := by
        rintro rfl
        rw [missing] at held
        cases held
      exact .inl ((Function.update_of_ne elsewhere _ _).trans held)
  next env held =>
    rw [State.share]
    split
    · exact .of_same rfl
    · exact .of_same rfl

omit inv in
private theorem close_idle (i : Nat) {adapter : Adapter P} {raises : Bool}
    (idle : adapter.env = none ∨ raises = true ∨ s.count_dict adapter.path = none) : s.close i adapter raises = s := by
  rw [State.close]
  split
  · rfl
  next passed =>
    split
    · rfl
    next count counted =>
      obtain missing | raised | uncounted := idle
      · simp [missing] at passed
      · simp [raised] at passed
      · rw [uncounted] at counted
        cases counted

private theorem Inv.close_counted (i : Nat) {adapter : Adapter P} (environment : adapter.env.isSome = true)
    (used : 0 < s.openOn adapter.path) :
    s.close i adapter false = if s.openOn adapter.path = 1 then
        { s with
          env_dict := Function.update s.env_dict adapter.path none
          sub_db_dict := Function.update s.sub_db_dict adapter.path none
          count_dict := Function.update s.count_dict adapter.path none }.finish i adapter
      else { s with
        count_dict := Function.update s.count_dict adapter.path
          (some ((s.openOn adapter.path : Int) - 1)) }.finish i adapter := by
  have present : (s.env_dict adapter.path).isSome = true := (inv.entry _).mpr used
  have sub_db := (inv.sub_db adapter.path).trans present
  rw [State.close,if_neg (by simp [Option.isSome_iff_ne_none.mp environment]),inv.counted.present used]
  dsimp only
  by_cases last : s.openOn adapter.path = 1
  · rw [if_pos (by omega),if_pos last,State.remove,if_neg (by simp [Option.isSome_iff_ne_none.mp present])]
    dsimp only
    rw [if_neg (by simp [Option.isSome_iff_ne_none.mp sub_db])]
  · rw [if_neg (by omega),if_neg last]

private theorem Inv.close_open {i : Nat} {adapter : Adapter P} (found : s.adapters[i]? = some adapter)
    (opened : adapter.isOpen = true) (raises : Bool) :
    Inv (s.close i adapter raises) ∧ Keeps s (s.close i adapter raises) := by
  have member := List.mem_of_getElem? found
  cases raises with
  | true =>
    rw [close_idle i (.inr (.inl rfl))]
    exact ⟨inv,.of_same rfl⟩
  | false =>
  have used := openOn_pos s member opened
  have opens (path : P) : (s.finish i adapter).openOn path = s.openOn path - if path = adapter.path then 1 else 0 := by
    rw [openOn_finish s found]
    simp [Adapter.on,opened,eq_comm]
  have remaining {other : Adapter P} (member : other ∈ (s.finish i adapter).adapters) (still : other.isOpen = true) :
      other ∈ s.adapters := by
    obtain old | rfl := List.mem_or_eq_of_mem_set member
    · exact old
    · cases still
  rw [inv.close_counted i (inv.shared adapter member opened).1 used]
  split
  next last =>
    have released := (inv.counted.release_last last).of_same opens
    have opens (path : P) : (s.finish i adapter).openOn path = if path = adapter.path then 0 else s.openOn path := by
      rw [opens]
      by_cases same : path = adapter.path
      · simp [same,last]
      · simp [same]
    refine ⟨⟨⟨released,fun path => ?_,fun other member still => ?_⟩,fun path => ?_⟩,fun path env held => ?_⟩
    · change (Function.update s.env_dict adapter.path none path).isSome ↔ 0 < (s.finish i adapter).openOn path
      rw [opens]
      by_cases same : path = adapter.path
      · simp [same]
      · simp [same,inv.entry]
    · change other.env.isSome ∧ Function.update s.env_dict adapter.path none other.path = other.env
      have positive : 0 < (s.finish i adapter).openOn other.path := openOn_pos (s.finish i adapter) member still
      have elsewhere : other.path ≠ adapter.path := by
        intro same
        rw [opens,if_pos same] at positive
        exact Nat.lt_irrefl 0 positive
      rw [Function.update_of_ne elsewhere]
      exact inv.shared other (remaining member still) still
    · change (Function.update s.sub_db_dict adapter.path none path).isSome =
        (Function.update s.env_dict adapter.path none path).isSome
      by_cases same : path = adapter.path
      · simp [same]
      · simp [same,inv.sub_db]
    · change Function.update s.env_dict adapter.path none path = some env ∨
        Function.update s.env_dict adapter.path none path = none ∧ s.openOn path = 1 ∧
          (s.finish i adapter).openOn path = 0
      by_cases same : path = adapter.path
      · exact .inr ⟨by simp [same],by rw [same,last],by rw [opens,if_pos same]⟩
      · exact .inl (by rw [Function.update_of_ne same,held])
  next several =>
    have released := (inv.counted.release (by omega)).of_same opens
    refine ⟨⟨⟨released,fun path => ?_,fun other member still => ?_⟩,inv.sub_db⟩,.of_same rfl⟩
    · change (s.env_dict path).isSome ↔ 0 < (s.finish i adapter).openOn path
      rw [opens,inv.entry]
      by_cases same : path = adapter.path
      · rw [if_pos same,same]
        omega
      · simp [same]
    · exact inv.shared other (remaining member still) still

private theorem Inv.close_halfOpened {i : Nat} {adapter : Adapter P} (found : s.adapters[i]? = some adapter)
    (half : adapter.halfOpened = true) (counted : (s.count_dict adapter.path).isSome = true) :
    ¬ Balanced (s.close i adapter false) := by
  intro balanced
  rw [Adapter.halfOpened,Bool.and_eq_true,Bool.not_eq_true'] at half
  obtain ⟨count,held⟩ := Option.isSome_iff_exists.mp counted
  obtain ⟨_,used⟩ := inv.counted.entry held
  have opens : (s.finish i adapter).openOn adapter.path = s.openOn adapter.path := by
    rw [openOn_finish s found]
    simp [Adapter.on,half.2]
  rw [inv.close_counted i half.1 used] at balanced
  split at balanced
  · have entry : (Function.update s.env_dict adapter.path none adapter.path).isSome ↔
        0 < (s.finish i adapter).openOn adapter.path := balanced.entry adapter.path
    rw [opens] at entry
    simp only [Function.update_self,Option.isSome_none,Bool.false_eq_true,false_iff] at entry
    exact entry used
  · have count : Function.update s.count_dict adapter.path (some ((s.openOn adapter.path : Int) - 1)) adapter.path =
        if (s.finish i adapter).openOn adapter.path = 0 then none
        else some ((s.finish i adapter).openOn adapter.path : Int) := balanced.count adapter.path
    rw [opens,Function.update_self,if_neg (Nat.ne_of_gt used)] at count
    have equal := Option.some.inj count
    omega

theorem Inv.step_careful {act : Act P} {t : State P} (allowed : careful s act = true)
    (stepped : system.step s act = some t) : Inv t ∧ Keeps s t := by
  cases act with
  | init path fault =>
    cases stepped
    exact ⟨inv.open_ path fault,open_keeps path fault⟩
  | close i raises =>
    obtain ⟨adapter,found,rfl⟩ := Option.map_eq_some_iff.mp stepped
    cases raises with
    | true =>
      rw [close_idle i (.inr (.inl rfl))]
      exact ⟨inv,.of_same rfl⟩
    | false =>
      by_cases opened : adapter.isOpen = true
      · exact inv.close_open found opened false
      · have idle : adapter.env = none ∨ false = true ∨ s.count_dict adapter.path = none := by
          simp only [careful,found,Adapter.halfOpened,Option.all_some,Bool.not_eq_true] at allowed opened
          rw [opened] at allowed
          cases environment : adapter.env with
          | none => exact .inl rfl
          | some env => simpa [environment] using allowed
        rw [close_idle i idle]
        exact ⟨inv,.of_same rfl⟩

theorem Inv.step_careless {act : Act P} {t : State P} (refused : careful s act = false)
    (stepped : system.step s act = some t) : ¬ Balanced t := by
  cases act with
  | init => cases refused
  | close i raises =>
    obtain ⟨adapter,found,rfl⟩ := Option.map_eq_some_iff.mp stepped
    simp only [careful,found,Option.all_some,Bool.or_eq_false_iff,Bool.not_eq_false',Bool.and_eq_true] at refused
    obtain ⟨rfl,half,counted⟩ := refused
    exact inv.close_halfOpened found half counted

end

/-- Counts, entries and environments are right in every run in which no half-opened adapter is
closed while its path has an entry; such a close makes them wrong. -/
theorem counts_balanced {s : State P} (reached : (system.restrict careful).Reachable s) :
    Balanced s ∧ ∀ act t, system.step s act = some t →
      if careful s act then Balanced t ∧ Keeps s t else ¬ Balanced t := by
  have inv : Inv s := by
    apply reached.invariant
    · rintro _ rfl
      exact inv_init
    · intro s act t inv stepped
      obtain ⟨allowed,taken⟩ := (System.restrict_step_iff _ _ _ _ _).mp stepped
      exact (inv.step_careful allowed taken).1
  refine ⟨inv.toBalanced,fun act t stepped => ?_⟩
  split
  next allowed =>
    obtain ⟨next,kept⟩ := inv.step_careful allowed stepped
    exact ⟨next.toBalanced,kept⟩
  next refused => exact inv.step_careless (by simpa using refused) stepped

end

/-- A constructor fails in `open_db`, two others succeed on another path, of which one closes twice. -/
theorem counts_balanced_run : ∃ s : State String, (system.restrict careful).Reachable s ∧
    s.openOn "out" = 1 ∧ s.count_dict "out" = some 1 := by
  have ran : ((system.restrict careful).exec State.init
      [.init "in" (some .open_db),.init "out" none,.init "out" none,.close 0 false,.close 1 false,
        .close 1 false]).any (fun s : State String => decide (s.openOn "out" = 1)) = true := by decide
  obtain ⟨s,run,found⟩ := (Option.any_eq_true _ _).mp ran
  have opened : s.openOn "out" = 1 := of_decide_eq_true found
  have reached : (system.restrict careful).Reachable s := ⟨State.init,_,rfl,run⟩
  have balanced := (counts_balanced reached).1
  exact ⟨s,reached,opened,by rw [balanced.count,opened]; rfl⟩

/-- The finalizer of a half-opened adapter takes away the entry that an open adapter uses. -/
theorem finalizer_unbalances : ¬ ∀ s : State String, system.Reachable s → Balanced s := by
  intro claimed
  have balanced := claimed _ ⟨State.init,[.init "in" (some .open_db),.init "in" none,.close 0 false],rfl,rfl⟩
  exact absurd ((balanced.entry "in").mpr (by decide)) (by decide)

end Eggroll.LmdbAdapter
