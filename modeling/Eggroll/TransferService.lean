import Mathlib.Data.Fintype.Basic
import Mathlib.Logic.Function.Basic
import Eggroll.Library.System

/-! The registry of brokers (`TransferService`): a broker and an event for a key, kept in two
dictionaries under a mutex, but for one look at the event that `get_broker` takes outside it.
Each step is one access of a thread to the dictionaries or to the mutex. -/
namespace Eggroll.TransferService
open Library

inductive Raised (K : Type)
  | keyError (key : K)
  | runtimeError (key : K)
deriving Repr, DecidableEq

inductive Outcome (K B : Type)
  | nothing
  | broker (b : B)
  | removed (result : Bool)
  | raised (e : Raised K)
deriving Repr, DecidableEq

/-- A call of `get_or_create_broker`, with the FifoBroker it would create, or of `set_broker`. -/
structure Put (K B : Type) where
  key : K
  broker : B
  set_broker : Bool
deriving Repr, DecidableEq

/-- A call of `get_broker`; `since` is history, the moment when it began, and so is `upto`
below, the moment when it ended. -/
structure Get (K : Type) where
  key : K
  retry : Nat
  since : Nat
deriving Repr, DecidableEq

inductive Call (K B : Type)
  | get_or_create_broker (key : K) (created : B)
  | set_broker (key : K) (broker : B)
  | get_broker (key : K)
  | remove_broker (key : K)
deriving Repr, DecidableEq

/-- Where a thread stands: `putEnter` to `putLeave` in `get_or_create_broker` or `set_broker`,
`getEnter` to `getLeave` in `get_broker`, `removeEnter` to `removeLeave` in `remove_broker`. -/
inductive Pc (K B : Type)
  | idle
  | ended (outcome : Outcome K B)
  | got (call : Get K) (upto : Nat) (outcome : Outcome K B)
  | putEnter (call : Put K B)
  | putBroker (call : Put K B)
  | putEvent (call : Put K B)
  | putSet (call : Put K B)
  | putLeave (call : Put K B)
  | getEnter (call : Get K)
  | getEvent (call : Get K)
  | getExit (call : Get K)
  | getLook (call : Get K)
  | getWait (call : Get K)
  | getAgain (call : Get K)
  | getCheck (call : Get K)
  | getLeave (call : Get K) (result : Option B)
  | removeEnter (key : K)
  | removeBroker (key : K)
  | removeEvent (key : K)
  | removeLeave (key : K) (result : Bool)
deriving Repr, DecidableEq

section
variable {T K B : Type} [DecidableEq T] [DecidableEq K]

/-- An event is there with whether it is set. `history` holds what `data_buffer` was after
each step. -/
structure State (T K B : Type) where
  mutex : Option T
  data_buffer : K → Option B
  event_buffer : K → Option Bool
  pc : T → Pc K B
  history : List (K → Option B)

inductive Act (T K B : Type)
  | call (t : T) (call : Call K B)
  | advance (t : T)
deriving Repr, DecidableEq

namespace State

def init : State T K B where
  mutex := none
  data_buffer := fun _ => none
  event_buffer := fun _ => none
  pc := fun _ => .idle
  history := [fun _ => none]

variable (s : State T K B) (t : T)

def goto (pc : Pc K B) : State T K B := { s with pc := Function.update s.pc t pc }

def acquire (pc : Pc K B) : Option (State T K B) :=
  if s.mutex.isNone then some { s.goto t pc with mutex := some t } else none

/-- The end of the `with` block, by an exception or not. -/
def release (pc : Pc K B) : State T K B := { s.goto t pc with mutex := none }

def put_data (key : K) (broker : Option B) : State T K B :=
  { s with data_buffer := Function.update s.data_buffer key broker }

def put_event (key : K) (event : Option Bool) : State T K B :=
  { s with event_buffer := Function.update s.event_buffer key event }

/-- `if key not in event_buffer: event_buffer[key] = Event()`. -/
def ensure_event (key : K) : State T K B :=
  if (s.event_buffer key).isNone then s.put_event key (some false) else s

def begin : Call K B → State T K B
  | .get_or_create_broker key created => s.goto t (.putEnter ⟨key,created,false⟩)
  | .set_broker key broker => s.goto t (.putEnter ⟨key,broker,true⟩)
  | .get_broker key => s.goto t (.getEnter ⟨key,0,s.history.length - 1⟩)
  | .remove_broker key => s.goto t (.removeEnter key)

def call (c : Call K B) : Option (State T K B) :=
  match s.pc t with
  | .idle | .ended _ | .got _ _ _ => some (s.begin t c)
  | _ => none

def advance : Option (State T K B) :=
  match s.pc t with
  | .idle | .ended _ | .got _ _ _ => none
  | .putEnter c => s.acquire t (.putBroker c)
  | .putBroker c =>
    some ((if c.set_broker || (s.data_buffer c.key).isNone then s.put_data c.key (some c.broker) else s).goto t
      (.putEvent c))
  | .putEvent c => some ((s.ensure_event c.key).goto t (.putSet c))
  | .putSet c =>
    match s.event_buffer c.key with
    | none => some (s.release t (.ended (.raised (.keyError c.key))))
    | some _ => some ((s.put_event c.key (some true)).goto t (.putLeave c))
  | .putLeave c =>
    if c.set_broker then some (s.release t (.ended .nothing))
    else
      match s.data_buffer c.key with
      | none => some (s.release t (.ended (.raised (.keyError c.key))))
      | some b => some (s.release t (.ended (.broker b)))
  | .getEnter c => s.acquire t (.getEvent c)
  | .getEvent c => some ((s.ensure_event c.key).goto t (.getExit c))
  | .getExit c => some (s.release t (.getLook c))
  | .getLook c =>
    -- `event_buffer[key]` outside the mutex
    match s.event_buffer c.key with
    | none => some (s.goto t (.got c s.history.length (.raised (.keyError c.key))))
    | some _ => some (s.goto t (.getWait c))
  -- the wait is over when that event is set or after its interval
  | .getWait c => some (s.goto t (.getAgain c))
  | .getAgain c => s.acquire t (.getCheck c)
  | .getCheck c =>
    match s.event_buffer c.key with
    | none => some (s.release t (.got c s.history.length (.raised (.keyError c.key))))
    | some is_set => some (s.goto t (.getLeave c (if is_set then s.data_buffer c.key else none)))
  | .getLeave c result =>
    match result with
    | some b => some (s.release t (.got c s.history.length (.broker b)))
    | none =>
      if 1 < c.retry + 1 then some (s.release t (.got c s.history.length (.raised (.runtimeError c.key))))
      else some (s.release t (.getEnter { c with retry := c.retry + 1 }))
  | .removeEnter key => s.acquire t (.removeBroker key)
  | .removeBroker key =>
    if (s.data_buffer key).isSome then some ((s.put_data key none).goto t (.removeEvent key))
    else some (s.goto t (.removeLeave key false))
  | .removeEvent key =>
    match s.event_buffer key with
    | none => some (s.release t (.ended (.raised (.keyError key))))
    | some _ => some ((s.put_event key none).goto t (.removeLeave key true))
  | .removeLeave _ result => some (s.release t (.ended (.removed result)))

/-- History notes what the step left in `data_buffer`. -/
def noted (s : State T K B) : State T K B := { s with history := s.history ++ [s.data_buffer] }

end State

def system : System (State T K B) (Act T K B) where
  start s := s = State.init
  step s
    | .call t c => (s.call t c).map State.noted
    | .advance t => (s.advance t).map State.noted

/-- Between the first critical section of a `get_broker` of this key and its last look at
the event. -/
def Pc.awaits : Pc K B → Option K
  | .getExit c | .getLook c | .getWait c | .getAgain c | .getCheck c => some c.key
  | _ => none

/-- No event is removed while a `get_broker` of its key will still look at it. -/
def spares [Fintype T] (s : State T K B) : Act T K B → Bool
  | .advance t =>
    match s.pc t with
    | .removeEvent key => decide (∀ u, (s.pc u).awaits ≠ some key)
    | _ => true
  | _ => true

def Balanced (s : State T K B) (key : K) : Prop := (s.data_buffer key).isSome ↔ s.event_buffer key = some true

/-- What is promised of a state: the registry outside the critical sections, and each
`get_broker` that has ended. -/
structure Sound (s : State T K B) : Prop where
  registry : s.mutex = none → ∀ key, Balanced s key
  answers : ∀ t c upto outcome, s.pc t = .got c upto outcome →
    (∃ b m buffer, outcome = .broker b ∧ c.since ≤ m ∧ m < upto ∧ s.history[m]? = some buffer ∧
      buffer c.key = some b) ∨ outcome = .raised (.runtimeError c.key)

def Pc.inside : Pc K B → Bool
  | .putBroker _ | .putEvent _ | .putSet _ | .putLeave _ | .getEvent _ | .getExit _ | .getCheck _ | .getLeave _ _
  | .removeBroker _ | .removeEvent _ | .removeLeave _ _ => true
  | _ => false

def Pc.amid : Pc K B → Option K
  | .putEvent c | .putSet c => some c.key
  | .removeEvent key => some key
  | _ => none

def Fits (s : State T K B) : Pc K B → Prop
  | .putEvent c => (s.data_buffer c.key).isSome
  | .putSet c => (s.data_buffer c.key).isSome ∧ (s.event_buffer c.key).isSome
  | .putLeave c => (s.data_buffer c.key).isSome
  | .removeEvent key => s.data_buffer key = none ∧ s.event_buffer key = some true
  | .getEnter c | .getEvent c | .getExit c | .getLook c | .getWait c | .getAgain c | .getCheck c =>
    c.since < s.history.length
  | .getLeave c result => c.since < s.history.length ∧ ∀ b, result = some b → s.data_buffer c.key = some b
  | .got c upto outcome => ∀ b, outcome = .broker b →
    ∃ m buffer, c.since ≤ m ∧ m < upto ∧ s.history[m]? = some buffer ∧ buffer c.key = some b
  | _ => True

structure Invariant (s : State T K B) : Prop where
  holder : ∀ t, (s.pc t).inside = true ↔ s.mutex = some t
  balanced : ∀ key, (∀ t, (s.pc t).amid ≠ some key) → Balanced s key
  fits : ∀ t, Fits s (s.pc t)
  history : s.history.getLast? = some s.data_buffer

namespace Invariant
variable {s : State T K B} {t : T}

omit [DecidableEq T] [DecidableEq K] in
private theorem amid_inside {pc : Pc K B} {key : K} (amid : pc.amid = some key) : pc.inside = true := by
  cases pc <;> first | rfl | simp [Pc.amid] at amid

omit [DecidableEq T] [DecidableEq K] in
private theorem outside_fits {s' : State T K B} {pc : Pc K B} (outside : pc.inside = false)
    (later : ∃ more, s'.history = s.history ++ more) (fits : Fits s pc) : Fits s' pc := by
  obtain ⟨more,later⟩ := later
  have longer {n : ℕ} (before : n < s.history.length) : n < s'.history.length := by
    rw [later,List.length_append]
    omega
  cases pc with
  | got c upto outcome =>
    intro b same
    obtain ⟨m,buffer,since,before,found,registered⟩ := fits b same
    refine ⟨m,buffer,since,before,?_,registered⟩
    rw [later,List.getElem?_append_left (List.getElem?_eq_some_iff.mp found).1,found]
  | getEnter | getLook | getWait | getAgain => exact longer fits
  | putEvent | putSet | putLeave | removeEvent | getEvent | getExit | getCheck | getLeave => cases outside
  | _ => trivial

omit [DecidableEq T] [DecidableEq K] in
private theorem longer_fits {s' : State T K B} {pc : Pc K B} (data : s'.data_buffer = s.data_buffer)
    (event : s'.event_buffer = s.event_buffer) (later : ∃ more, s'.history = s.history ++ more) (fits : Fits s pc) :
    Fits s' pc := by
  have longer {n : ℕ} (before : n < s.history.length) : n < s'.history.length := by
    obtain ⟨more,later⟩ := later
    rw [later,List.length_append]
    omega
  cases pc with
  | got => exact outside_fits rfl later fits
  | getEnter | getEvent | getExit | getLook | getWait | getAgain | getCheck => exact longer fits
  | getLeave => exact ⟨longer fits.1,data ▸ fits.2⟩
  | putEvent | putSet | putLeave | removeEvent =>
    simp only [Fits,data,event]
    exact fits
  | _ => trivial

omit [DecidableEq K] in
theorem moves (inv : Invariant s) {s' : State T K B} {pc : Pc K B} (pc_eq : s'.pc = Function.update s.pc t pc)
    (history : s'.history = s.history ++ [s'.data_buffer])
    (others : ∀ u ≠ t, s'.mutex = some u ↔ s.mutex = some u) (holder : pc.inside = true ↔ s'.mutex = some t)
    (balanced : ∀ key, pc.amid ≠ some key → (∀ u ≠ t, (s.pc u).amid ≠ some key) → Balanced s' key)
    (fits : Fits s' pc) (kept : ∀ u ≠ t, Fits s' (s.pc u)) : Invariant s' where
  holder u := by
    rw [pc_eq,Function.update_apply]
    split
    · rename_i same
      exact same ▸ holder
    · rename_i other
      rw [others u other]
      exact inv.holder u
  balanced key settled := by
    apply balanced
    · have := settled t
      rwa [pc_eq,Function.update_self] at this
    · intro u other
      have := settled u
      rwa [pc_eq,Function.update_of_ne other] at this
  fits u := by
    rw [pc_eq,Function.update_apply]
    split
    · exact fits
    · rename_i other
      exact kept u other
  history := by rw [history,List.getLast?_concat]

omit [DecidableEq K] in
theorem quiet (inv : Invariant s) {pc : Pc K B} {mutex : Option T} (settled : (s.pc t).amid = none)
    (others : ∀ u ≠ t, mutex = some u ↔ s.mutex = some u) (holder : pc.inside = true ↔ mutex = some t)
    (fits : Fits s pc) : Invariant { s.goto t pc with mutex := mutex }.noted := by
  refine inv.moves rfl rfl others holder ?_ ?_ ?_
  · intro key _ rest
    apply inv.balanced key
    intro u
    by_cases same : u = t
    · rw [same,settled]
      simp
    · exact rest u same
  · exact longer_fits (s := s) rfl rfl ⟨[s.data_buffer],rfl⟩ fits
  · exact fun u _ => longer_fits (s := s) rfl rfl ⟨[s.data_buffer],rfl⟩ (inv.fits u)

omit [DecidableEq K] in
theorem walk (inv : Invariant s) {pc : Pc K B} (settled : (s.pc t).amid = none)
    (same : pc.inside = (s.pc t).inside) (fits : Fits s pc) : Invariant (s.goto t pc).noted :=
  inv.quiet settled (fun _ _ => Iff.rfl) (by rw [same,inv.holder]) fits

omit [DecidableEq K] in
theorem acquire (inv : Invariant s) {s' : State T K B} {pc : Pc K B} (outside : (s.pc t).inside = false)
    (inside : pc.inside = true) (taken : s.acquire t pc = some s') (fits : Fits s pc) : Invariant s'.noted := by
  unfold State.acquire at taken
  split at taken
  · rename_i free
    cases taken
    refine inv.quiet ?_ (fun u other => ?_) (by simp [inside]) fits
    · by_contra amid
      obtain ⟨key,amid⟩ := Option.ne_none_iff_exists'.mp amid
      rw [amid_inside amid] at outside
      cases outside
    · rw [Option.isNone_iff_eq_none.mp free]
      simp [Ne.symm other]
  · cases taken

omit [DecidableEq K] in
theorem release (inv : Invariant s) {pc : Pc K B} (inside : (s.pc t).inside = true) (settled : (s.pc t).amid = none)
    (outside : pc.inside = false) (fits : Fits s pc) : Invariant (s.release t pc).noted := by
  have mine := (inv.holder t).mp inside
  refine inv.quiet settled (fun u other => ?_) (by simp [outside]) fits
  rw [mine]
  simp [Ne.symm other]

omit [DecidableEq K] in
theorem writes (inv : Invariant s) {s' : State T K B} {pc : Pc K B} (inside : (s.pc t).inside = true)
    (kept : s'.mutex = s.mutex ∧ s'.pc = s.pc ∧ s'.history = s.history) (inside' : pc.inside = true)
    (balanced : ∀ key, pc.amid ≠ some key → Balanced s' key) (fits : Fits s' pc) :
    Invariant (s'.goto t pc).noted := by
  obtain ⟨mutex,pc_eq,history⟩ := kept
  have mine := (inv.holder t).mp inside
  refine inv.moves (by rw [← pc_eq]; rfl) (by rw [← history]; rfl) (fun u _ => by rw [← mutex]; rfl) ?_ ?_ ?_ ?_
  · rw [inside',← mine,← mutex]
    exact ⟨fun _ => rfl,fun _ => rfl⟩
  · exact fun key settled _ => balanced key settled
  · exact longer_fits (s := s') rfl rfl ⟨[s'.data_buffer],rfl⟩ fits
  · intro u other
    apply outside_fits (s := s)
    · by_contra busy
      have again := (inv.holder u).mp (by simpa using busy)
      exact other (Option.some.inj (again.symm.trans mine))
    · exact ⟨[s'.data_buffer],by rw [← history]; rfl⟩
    · exact inv.fits u

omit [DecidableEq T] [DecidableEq K] in
private theorem balanced_other (inv : Invariant s) (inside : (s.pc t).inside = true) {key : K}
    (settled : (s.pc t).amid ≠ some key) : Balanced s key := by
  apply inv.balanced key
  intro u amid
  have mine := (inv.holder t).mp inside
  have holder := (inv.holder u).mp (amid_inside amid)
  obtain rfl := Option.some.inj (holder.symm.trans mine)
  exact settled amid

omit [DecidableEq T] in
private theorem ensure_balanced {key other : K} (balanced : Balanced s other) : Balanced (s.ensure_event key) other := by
  unfold State.ensure_event
  split
  · rename_i missing
    by_cases same : other = key
    · subst same
      have none : s.event_buffer other = none := Option.isNone_iff_eq_none.mp missing
      simpa [Balanced,State.put_event,none] using balanced
    · simpa [Balanced,State.put_event,same] using balanced
  · exact balanced

omit [DecidableEq T] in
private theorem ensure_event_isSome (key : K) :
    ((s.ensure_event key).event_buffer key).isSome ∧ (s.ensure_event key).data_buffer = s.data_buffer ∧
      (s.ensure_event key).mutex = s.mutex ∧ (s.ensure_event key).pc = s.pc ∧
      (s.ensure_event key).history = s.history := by
  unfold State.ensure_event
  split
  · simp [State.put_event]
  · rename_i there
    exact ⟨Option.isSome_iff_ne_none.mpr (by simpa using there),rfl,rfl,rfl,rfl⟩

omit [DecidableEq K] in
theorem call (inv : Invariant s) {c : Call K B} {s' : State T K B} (called : s.call t c = some s') :
    Invariant s'.noted := by
  have begun : (s.pc t).amid = none ∧ (s.pc t).inside = false ∧ s' = s.begin t c := by
    unfold State.call at called
    split at called <;> simp_all [Pc.amid,Pc.inside]
  obtain ⟨settled,outside,rfl⟩ := begun
  have some_moment : 0 < s.history.length := by
    rw [List.length_pos_iff]
    intro empty
    have last := inv.history
    simp [empty] at last
  cases c with
  | get_broker key =>
    refine inv.walk settled (by rw [outside]; rfl) ?_
    change s.history.length - 1 < s.history.length
    omega
  | _ => exact inv.walk settled (by rw [outside]; rfl) trivial

theorem advance (inv : Invariant s) {s' : State T K B} (stepped : s.advance t = some s') : Invariant s'.noted := by
  have fits := inv.fits t
  unfold State.advance at stepped
  cases at_pc : s.pc t with
  | idle | ended | got => simp [at_pc] at stepped
  | putEnter c =>
    simp only [at_pc] at stepped
    exact inv.acquire (by rw [at_pc]; rfl) rfl stepped trivial
  | putBroker c =>
    simp only [at_pc,Option.some.injEq] at stepped
    subst stepped
    have inside : (s.pc t).inside = true := by rw [at_pc]; rfl
    split
    · refine inv.writes inside ⟨rfl,rfl,rfl⟩ rfl (fun key other => ?_) (by simp [Fits,State.put_data])
      have before : Balanced s key := inv.balanced_other inside (by rw [at_pc]; simp [Pc.amid])
      have apart : key ≠ c.key := fun same => other (congrArg some same.symm)
      simpa [Balanced,State.put_data,apart] using before
    · rename_i there
      refine inv.writes inside ⟨rfl,rfl,rfl⟩ rfl (fun key _ => ?_) ?_
      · exact inv.balanced_other inside (by rw [at_pc]; simp [Pc.amid])
      · simp only [Bool.or_eq_true,not_or,Bool.not_eq_true,Option.isNone_eq_false_iff] at there
        exact there.2
  | putEvent c =>
    simp only [at_pc,Option.some.injEq] at stepped fits
    subst stepped
    have inside : (s.pc t).inside = true := by rw [at_pc]; rfl
    obtain ⟨event,data,kept⟩ := ensure_event_isSome (s := s) c.key
    refine inv.writes inside kept rfl (fun key other => ?_) ⟨data ▸ fits,event⟩
    exact ensure_balanced (inv.balanced_other inside (by rw [at_pc]; exact other))
  | putSet c =>
    simp only [at_pc] at stepped fits
    have inside : (s.pc t).inside = true := by rw [at_pc]; rfl
    obtain ⟨is_set,there⟩ := Option.isSome_iff_exists.mp fits.2
    rw [there] at stepped
    cases stepped
    refine inv.writes inside ⟨rfl,rfl,rfl⟩ rfl (fun key _ => ?_) fits.1
    by_cases same : key = c.key
    · subst same
      simpa [Balanced,State.put_event] using fits.1
    · have before : Balanced s key := inv.balanced_other inside (by rw [at_pc]; simpa [Pc.amid] using Ne.symm same)
      simpa [Balanced,State.put_event,same] using before
  | putLeave c =>
    simp only [at_pc] at stepped fits
    obtain ⟨b,there⟩ := Option.isSome_iff_exists.mp fits
    rw [there] at stepped
    split at stepped <;> cases stepped <;>
      exact inv.release (by rw [at_pc]; rfl) (by rw [at_pc]; rfl) rfl trivial
  | getEnter c =>
    simp only [at_pc] at stepped fits
    exact inv.acquire (by rw [at_pc]; rfl) rfl stepped fits
  | getEvent c =>
    simp only [at_pc,Option.some.injEq] at stepped fits
    subst stepped
    have inside : (s.pc t).inside = true := by rw [at_pc]; rfl
    obtain ⟨_,_,kept⟩ := ensure_event_isSome (s := s) c.key
    refine inv.writes inside kept rfl (fun key _ => ?_) (by simpa [Fits,kept.2.2] using fits)
    exact ensure_balanced (inv.balanced_other inside (by rw [at_pc]; simp [Pc.amid]))
  | getExit c =>
    simp only [at_pc,Option.some.injEq] at stepped fits
    subst stepped
    exact inv.release (by rw [at_pc]; rfl) (by rw [at_pc]; rfl) rfl fits
  | getLook c =>
    simp only [at_pc] at stepped fits
    split at stepped <;> cases stepped
    · exact inv.walk (by rw [at_pc]; rfl) (by rw [at_pc]; rfl) fun b raised => by cases raised
    · exact inv.walk (by rw [at_pc]; rfl) (by rw [at_pc]; rfl) fits
  | getWait c =>
    simp only [at_pc,Option.some.injEq] at stepped fits
    subst stepped
    exact inv.walk (by rw [at_pc]; rfl) (by rw [at_pc]; rfl) fits
  | getAgain c =>
    simp only [at_pc] at stepped fits
    exact inv.acquire (by rw [at_pc]; rfl) rfl stepped fits
  | getCheck c =>
    simp only [at_pc] at stepped fits
    split at stepped <;> cases stepped
    · exact inv.release (by rw [at_pc]; rfl) (by rw [at_pc]; rfl) rfl fun b raised => by cases raised
    · refine inv.walk (by rw [at_pc]; rfl) (by rw [at_pc]; rfl) ⟨fits,fun b found => ?_⟩
      split at found
      · exact found
      · cases found
  | getLeave c result =>
    simp only [at_pc] at stepped fits
    obtain ⟨since,found⟩ := fits
    cases result with
    | some b =>
      cases stepped
      refine inv.release (by rw [at_pc]; rfl) (by rw [at_pc]; rfl) rfl ?_
      rintro _ ⟨⟩
      refine ⟨s.history.length - 1,s.data_buffer,by omega,by omega,?_,found b rfl⟩
      rw [← List.getLast?_eq_getElem?,inv.history]
    | none =>
      simp only at stepped
      split at stepped <;> cases stepped
      · exact inv.release (by rw [at_pc]; rfl) (by rw [at_pc]; rfl) rfl fun b raised => by cases raised
      · exact inv.release (by rw [at_pc]; rfl) (by rw [at_pc]; rfl) rfl since
  | removeEnter key =>
    simp only [at_pc] at stepped
    exact inv.acquire (by rw [at_pc]; rfl) rfl stepped trivial
  | removeBroker key =>
    simp only [at_pc] at stepped
    have inside : (s.pc t).inside = true := by rw [at_pc]; rfl
    have before (other : K) : Balanced s other := inv.balanced_other inside (by rw [at_pc]; simp [Pc.amid])
    split at stepped <;> cases stepped
    · rename_i there
      refine inv.writes inside ⟨rfl,rfl,rfl⟩ rfl (fun other settled => ?_) ⟨by simp [State.put_data],(before key).mp there⟩
      have apart : other ≠ key := fun same => settled (congrArg some same.symm)
      simpa [Balanced,State.put_data,apart] using before other
    · exact inv.walk (by rw [at_pc]; rfl) (by rw [at_pc]; rfl) trivial
  | removeEvent key =>
    simp only [at_pc] at stepped fits
    have inside : (s.pc t).inside = true := by rw [at_pc]; rfl
    rw [fits.2] at stepped
    cases stepped
    refine inv.writes inside ⟨rfl,rfl,rfl⟩ rfl (fun other _ => ?_) trivial
    by_cases same : other = key
    · subst same
      simp [Balanced,State.put_event,fits.1]
    · have before : Balanced s other := inv.balanced_other inside (by rw [at_pc]; simpa [Pc.amid] using Ne.symm same)
      simpa [Balanced,State.put_event,same] using before
  | removeLeave key result =>
    simp only [at_pc,Option.some.injEq] at stepped
    subst stepped
    exact inv.release (by rw [at_pc]; rfl) (by rw [at_pc]; rfl) rfl trivial

omit [DecidableEq T] [DecidableEq K] in
theorem init : Invariant (State.init : State T K B) where
  holder t := by simp [State.init,Pc.inside]
  balanced key _ := by simp [Balanced,State.init]
  fits t := trivial
  history := rfl

end Invariant

theorem step_invariant {s s' : State T K B} {a : Act T K B} (inv : Invariant s)
    (stepped : system.step s a = some s') : Invariant s' := by
  cases a with
  | call t c =>
    obtain ⟨_,called,rfl⟩ := Option.map_eq_some_iff.mp stepped
    exact inv.call called
  | advance t =>
    obtain ⟨_,advanced,rfl⟩ := Option.map_eq_some_iff.mp stepped
    exact inv.advance advanced

/-- Outside the critical sections the two dictionaries fit each other in every run, and a
broker that `get_broker` returns was registered at some moment of the call. -/
theorem reachable_invariant {s : State T K B} (reached : system.Reachable s) : Invariant s := by
  apply reached.invariant
  · rintro _ rfl
    exact .init
  · exact fun _ _ _ inv stepped => step_invariant inv stepped

omit [DecidableEq T] [DecidableEq K] in
private theorem Invariant.registry {s : State T K B} (inv : Invariant s) (free : s.mutex = none) (key : K) :
    Balanced s key := by
  apply inv.balanced key
  intro t amid
  have holder := (inv.holder t).mp (Invariant.amid_inside amid)
  rw [free] at holder
  cases holder

/-- The event that a `get_broker` will look at is there, and so no call has ended with a
KeyError. -/
structure Attended (s : State T K B) : Prop where
  awaited : ∀ t key, (s.pc t).awaits = some key → (s.event_buffer key).isSome
  answered : ∀ t c upto outcome, s.pc t = .got c upto outcome →
    (∃ b, outcome = .broker b) ∨ outcome = .raised (.runtimeError c.key)

namespace Attended
variable {s : State T K B} {t : T}

omit [DecidableEq K] in
theorem moves (attended : Attended s) {s' : State T K B} {pc : Pc K B} (pc_eq : s'.pc = Function.update s.pc t pc)
    (events : ∀ u key, (s.pc u).awaits = some key → (s.event_buffer key).isSome → (s'.event_buffer key).isSome)
    (awaited : ∀ key, pc.awaits = some key → (s'.event_buffer key).isSome)
    (answered : ∀ c upto outcome, pc = .got c upto outcome →
      (∃ b, outcome = .broker b) ∨ outcome = .raised (.runtimeError c.key)) : Attended s'.noted where
  awaited u key known := by
    change (s'.pc u).awaits = some key at known
    rw [pc_eq,Function.update_apply] at known
    split at known
    · exact awaited key known
    · exact events u key known (attended.awaited u key known)
  answered u c upto outcome known := by
    change s'.pc u = _ at known
    rw [pc_eq,Function.update_apply] at known
    split at known
    · exact answered c upto outcome known
    · exact attended.answered u c upto outcome known

omit [DecidableEq K] in
theorem passes (attended : Attended s) {s' : State T K B} {pc : Pc K B} (pc_eq : s'.pc = Function.update s.pc t pc)
    (events : ∀ u key, (s.pc u).awaits = some key → (s.event_buffer key).isSome → (s'.event_buffer key).isSome)
    (awaits : pc.awaits = none) (going : ∀ c upto outcome, pc ≠ .got c upto outcome) : Attended s'.noted :=
  attended.moves pc_eq events (fun key known => by simp [awaits] at known)
    fun c upto outcome known => absurd known (going c upto outcome)

omit [DecidableEq T] in
private theorem set_event (key : K) (is_set : Bool) (u : T) (other : K) (_ : (s.pc u).awaits = some other)
    (there : (s.event_buffer other).isSome) : ((s.put_event key (some is_set)).event_buffer other).isSome := by
  simp only [State.put_event,Function.update_apply]
  split
  · rfl
  · exact there

omit [DecidableEq K] in
theorem call (attended : Attended s) {c : Call K B} {s' : State T K B} (called : s.call t c = some s') :
    Attended s'.noted := by
  have begun : s' = s.begin t c := by
    unfold State.call at called
    split at called <;> simp_all
  subst begun
  cases c <;> exact attended.passes rfl (fun _ _ _ => id) rfl (by simp)

theorem advance (attended : Attended s) {s' : State T K B} (stepped : s.advance t = some s')
    (spared : ∀ key, s.pc t = .removeEvent key → ∀ u, (s.pc u).awaits ≠ some key) : Attended s'.noted := by
  have awaited := attended.awaited t
  have same (u : T) (key : K) (_ : (s.pc u).awaits = some key) (there : (s.event_buffer key).isSome) :
      (s.event_buffer key).isSome := there
  have ensured (key : K) (u : T) (other : K) (_ : (s.pc u).awaits = some other)
      (there : (s.event_buffer other).isSome) : ((s.ensure_event key).event_buffer other).isSome := by
    unfold State.ensure_event
    split
    · exact set_event key false u other ‹_› there
    · exact there
  have acquired {pc : Pc K B} (taken : s.acquire t pc = some s') (awaits : ∀ key, pc.awaits = some key →
      (s.event_buffer key).isSome) (going : ∀ c upto outcome, pc ≠ .got c upto outcome) : Attended s'.noted := by
    unfold State.acquire at taken
    split at taken <;> cases taken
    exact attended.moves rfl same awaits fun c upto outcome known => absurd known (going c upto outcome)
  unfold State.advance at stepped
  cases at_pc : s.pc t with
  | idle | ended | got => simp [at_pc] at stepped
  | putEnter | getEnter | removeEnter =>
    simp only [at_pc] at stepped
    exact acquired stepped (by simp [Pc.awaits]) (by simp)
  | putBroker c =>
    simp only [at_pc,Option.some.injEq] at stepped
    subst stepped
    split <;> exact attended.passes rfl same rfl (by simp)
  | putEvent c =>
    simp only [at_pc,Option.some.injEq] at stepped
    subst stepped
    exact attended.passes (congrArg (Function.update · t _) (Invariant.ensure_event_isSome c.key).2.2.2.1) (ensured c.key)
      rfl (by simp)
  | putSet c =>
    simp only [at_pc] at stepped
    split at stepped <;> cases stepped
    · exact attended.passes rfl same rfl (by simp)
    · exact attended.passes rfl (set_event c.key true) rfl (by simp)
  | putLeave c =>
    simp only [at_pc] at stepped
    split at stepped
    · cases stepped
      exact attended.passes rfl same rfl (by simp)
    · split at stepped <;> cases stepped <;> exact attended.passes rfl same rfl (by simp)
  | getEvent c =>
    simp only [at_pc,Option.some.injEq] at stepped
    subst stepped
    obtain ⟨event,_,_,kept,_⟩ := Invariant.ensure_event_isSome (s := s) c.key
    refine attended.moves (congrArg (Function.update · t _) kept) (ensured c.key) ?_ (by simp)
    rintro _ ⟨⟩
    exact event
  | getExit c | getWait c =>
    simp only [at_pc,Option.some.injEq] at stepped awaited
    subst stepped
    exact attended.moves rfl same awaited (by simp)
  | getAgain c =>
    simp only [at_pc] at stepped awaited
    exact acquired stepped awaited (by simp)
  | getLook c =>
    simp only [at_pc] at stepped awaited
    obtain ⟨is_set,there⟩ := Option.isSome_iff_exists.mp (awaited c.key rfl)
    rw [there] at stepped
    cases stepped
    exact attended.moves rfl same awaited (by simp)
  | getCheck c =>
    simp only [at_pc] at stepped awaited
    obtain ⟨is_set,there⟩ := Option.isSome_iff_exists.mp (awaited c.key rfl)
    rw [there] at stepped
    cases stepped
    exact attended.passes rfl same rfl (by simp)
  | getLeave c result =>
    simp only [at_pc] at stepped
    cases result with
    | some b =>
      cases stepped
      refine attended.moves rfl same (by simp [Pc.awaits]) ?_
      rintro _ _ _ ⟨⟩
      exact .inl ⟨b,rfl⟩
    | none =>
      simp only at stepped
      split at stepped <;> cases stepped
      · refine attended.moves rfl same (by simp [Pc.awaits]) ?_
        rintro _ _ _ ⟨⟩
        exact .inr rfl
      · exact attended.passes rfl same rfl (by simp)
  | removeBroker key =>
    simp only [at_pc] at stepped
    split at stepped <;> cases stepped <;> exact attended.passes rfl same rfl (by simp)
  | removeEvent key =>
    simp only [at_pc] at stepped
    split at stepped <;> cases stepped
    · exact attended.passes rfl same rfl (by simp)
    · refine attended.passes rfl (fun u other known there => ?_) rfl (by simp)
      have apart : other ≠ key := by
        rintro rfl
        exact spared other at_pc u known
      simpa [State.put_event,State.goto,apart] using there
  | removeLeave key result =>
    simp only [at_pc,Option.some.injEq] at stepped
    subst stepped
    exact attended.passes rfl same rfl (by simp)

end Attended

variable [Fintype T]

/-- Where no event is taken away from under a `get_broker`, the registry is consistent
outside the critical sections, and each `get_broker` ends with a broker that was registered
during the call or with its RuntimeError. -/
theorem registry_sound {s : State T K B} (reached : (system.restrict spares).Reachable s) : Sound s := by
  have inv := reachable_invariant reached.unrestricted
  have attended : Attended s := by
    apply reached.invariant
    · rintro _ rfl
      exact ⟨fun t key known => by simp [State.init,Pc.awaits] at known,
        fun t c upto outcome known => by simp [State.init] at known⟩
    · intro s a s' holds stepped
      obtain ⟨allowed,stepped⟩ := (System.restrict_step_iff _ _ _ _ _).mp stepped
      cases a with
      | call t c =>
        obtain ⟨_,called,rfl⟩ := Option.map_eq_some_iff.mp stepped
        exact holds.call called
      | advance t =>
        obtain ⟨_,advanced,rfl⟩ := Option.map_eq_some_iff.mp stepped
        refine holds.advance advanced fun key at_pc => ?_
        simpa [spares,at_pc] using allowed
  refine ⟨inv.registry,fun t c upto outcome ended => ?_⟩
  rcases attended.answered t c upto outcome ended with ⟨b,rfl⟩ | raised
  · have fits := inv.fits t
    rw [ended] at fits
    obtain ⟨m,buffer,since,before,found,registered⟩ := fits b rfl
    exact .inl ⟨b,m,buffer,rfl,since,before,found,registered⟩
  · exact .inr raised

end

/-- One thread sets a broker, then another one gets it. -/
def set_then_get : List (Act Bool Unit Nat) :=
  .call false (.set_broker () 7) :: List.replicate 5 (.advance false) ++
    .call true (.get_broker ()) :: List.replicate 8 (.advance true)

theorem registry_sound_got : ∃ s : State Bool Unit Nat, (system.restrict spares).Run State.init set_then_get s ∧
    s.pc true = .got ⟨(),0,6⟩ 15 (.broker 7) ∧ Sound s := by
  have ended : ((system.restrict spares).exec State.init set_then_get).map (fun s => s.pc true) =
      some (.got ⟨(),0,6⟩ 15 (.broker 7)) := by decide
  obtain ⟨s,run,got⟩ := Option.map_eq_some_iff.mp ended
  exact ⟨s,run,got,registry_sound ⟨_,_,rfl,run⟩⟩

/-- Between the first critical section of a `get_broker` and its look at the event the broker
is removed. -/
theorem removed_key_error : ¬ ∀ s : State Bool Unit Nat, system.Reachable s → Sound s := by
  intro always
  let acts : List (Act Bool Unit Nat) :=
    .call false (.set_broker () 7) :: List.replicate 5 (.advance false) ++
      .call true (.get_broker ()) :: List.replicate 3 (.advance true) ++
      .call false (.remove_broker ()) :: List.replicate 4 (.advance false) ++ [.advance true]
  have answered := (always _ ⟨_,acts,rfl,rfl⟩).answers true ⟨(),0,6⟩ 16 (.raised (.keyError ())) rfl
  simp at answered

end Eggroll.TransferService
