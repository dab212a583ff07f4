import Mathlib.Data.List.Induction
import Mathlib.Logic.Function.Basic
import Eggroll.Library.PyBytes
import Eggroll.Library.System

/-! The rendezvous store of the cluster manager (`RendezvousStoreService.java`,
`WaitableMapStore.java`): a map of stores by prefix, each a map of values by key. A request
looks its store up and then acts on it, while others do the same. -/
namespace Eggroll.Rendezvous
open Library Library.PyBytes

def wrapLong (x : Int) : Int := (x + 9223372036854775808) % 18446744073709551616 - 9223372036854775808

def InLong (x : Int) : Prop := -9223372036854775808 ≤ x ∧ x < 9223372036854775808

/-- `ByteBuffer.putLong`: the high word first. -/
def longToV (x : Int) : Bytes := packInt (x / 4294967296) ++ packInt x

/-- `ByteBuffer.getLong`; other than eight bytes it throws. -/
def vToLong (bytes : Bytes) : Option Int :=
  if bytes.length = 8 then some (wrapLong (fromBytes bytes)) else none

inductive Request
  | set (pre key : String) (value : Bytes)
  | add (pre key : String) (amount : Int)
  | get (pre key : String)
  | destroy (pre : String)
deriving Repr, DecidableEq

/-- An answer, or what was thrown instead. With a timeout stand, as history, the lengths of
the log when the request looked its store up and when it polled last. -/
inductive Response
  | set
  | added (amount : Int)
  | value (bytes : Bytes)
  | timeout (since upto : Nat)
  | destroyed (success : Bool)
  | thrown
deriving Repr, DecidableEq

/-- How far a request has come: it has its store, it is a `get` that has found its key
there, or a `destroy` that clears the store. -/
inductive Place
  | looked (store since : Nat)
  | contained (store since : Nat)
  | clearing (store : Nat)
  | answered (response : Response)
deriving Repr, DecidableEq

structure Call where
  request : Request
  place : Place
deriving Repr, DecidableEq

/-- What requests have done to the stores, each at one moment. -/
inductive Event
  | set (id : Nat) (pre key : String) (value : Bytes)
  | added (id : Nat) (pre key : String) (amount result : Int)
  | destroyed (id : Nat) (pre : String)
deriving Repr, DecidableEq

/-- Stores are numbered as they are made; `next` is the first that has not been. `log` is
history. -/
structure State where
  stores : String → Option Nat
  maps : Nat → String → Option Bytes
  next : Nat
  calls : Nat → Option Call
  log : List Event

inductive Act
  | invoke (id : Nat) (request : Request)
  | advance (id : Nat)
  | give_up (id : Nat)
  | clear (id : Nat) (key : String)
deriving Repr, DecidableEq

namespace State

def init : State := ⟨fun _ => none,fun _ _ => none,0,fun _ => none,[]⟩

def goto (s : State) (id : Nat) (request : Request) (place : Place) : State :=
  { s with calls := Function.update s.calls id (some ⟨request,place⟩) }

def put (s : State) (store : Nat) (key : String) (value : Option Bytes) : State :=
  { s with maps := Function.update s.maps store (Function.update (s.maps store) key value) }

def record (s : State) (event : Event) : State := { s with log := s.log ++ [event] }

/-- A `new WaitableMapStore()` for the prefix. -/
def make (s : State) (pre : String) : State :=
  { s with
    stores := Function.update s.stores pre (some s.next)
    maps := Function.update s.maps s.next fun _ => none
    next := s.next + 1 }

/-- `stores.computeIfAbsent(prefix, …)`. -/
def getStore (s : State) (pre : String) : State × Nat :=
  match s.stores pre with
  | some store => (s,store)
  | none => (s.make pre,s.next)

/-- `stores.remove(prefix)`. -/
def remove (s : State) (pre : String) : State := { s with stores := Function.update s.stores pre none }

def invoke (s : State) (id : Nat) (request : Request) : State :=
  match request with
  | .destroy pre =>
    let removed := (s.remove pre).record (.destroyed id pre)
    match s.stores pre with
    | some store => removed.goto id request (.clearing store)
    | none => removed.goto id request (.answered (.destroyed false))
  | .set pre _ _ | .add pre _ _ | .get pre _ =>
    let looked := s.getStore pre
    looked.1.goto id request (.looked looked.2 s.log.length)

/-- `store.compute` of an `add`: the new value, unless the old one is no long. -/
def compute (old : Option Bytes) (amount : Int) : Option Bytes :=
  match old with
  | none => some (longToV amount)
  | some v => (vToLong v).map fun n => longToV (n + amount)

def advance (s : State) (id : Nat) : Call → Option State
  | ⟨.set pre key value,.looked store _⟩ =>
    some (((s.put store key (some value)).record (.set id pre key value)).goto id
      (.set pre key value) (.answered .set))
  | ⟨.add pre key amount,.looked store _⟩ =>
    match compute (s.maps store key) amount with
    | none => some (s.goto id (.add pre key amount) (.answered .thrown))
    | some value =>
      let result := (vToLong value).getD 0
      some (((s.put store key (some value)).record (.added id pre key amount result)).goto id
        (.add pre key amount) (.answered (.added result)))
  | ⟨.get pre key,.looked store since⟩ =>
    if (s.maps store key).isSome then some (s.goto id (.get pre key) (.contained store since)) else some s
  | ⟨.get pre key,.contained store since⟩ =>
    match s.maps store key with
    | some value => some (s.goto id (.get pre key) (.answered (.value value)))
    | none => some (s.goto id (.get pre key) (.answered (.timeout since s.log.length)))
  | ⟨.destroy pre,.clearing _⟩ => some (s.goto id (.destroy pre) (.answered (.destroyed true)))
  | _ => none

def give_up (s : State) (id : Nat) : Call → Option State
  | ⟨.get pre key,.looked store since⟩ =>
    if (s.maps store key).isNone then
      some (s.goto id (.get pre key) (.answered (.timeout since s.log.length)))
    else none
  | _ => none

/-- `clear` takes the keys away one at a time. -/
def clear (s : State) (key : String) : Call → Option State
  | ⟨.destroy _,.clearing store⟩ => some (s.put store key none)
  | _ => none

end State

/-- Any number of requests; a `get` may give up at any poll that does not find its key. -/
def system : System State Act where
  start s := s = State.init
  step s
    | .invoke id request => if (s.calls id).isNone then some (s.invoke id request) else none
    | .advance id => (s.calls id).bind (s.advance id)
    | .give_up id => (s.calls id).bind (s.give_up id)
    | .clear id key => (s.calls id).bind (s.clear key)

def Call.works : Call → Option (String × Nat)
  | ⟨.set pre _ _,.looked store _⟩ | ⟨.add pre _ _,.looked store _⟩ | ⟨.get pre _,.looked store _⟩
  | ⟨.get pre _,.contained store _⟩ => some (pre,store)
  | _ => none

/-- The store a request has looked up is still the one of its prefix when it is used. -/
def registered (s : State) : Act → Bool
  | .advance id | .give_up id =>
    match (s.calls id).bind Call.works with
    | some (pre,store) => s.stores pre = some store
    | none => true
  | _ => true

abbrev Shared := String → String → Option Bytes

def Event.effect (m : Shared) : Event → Shared
  | .set _ pre key value => Function.update m pre (Function.update (m pre) key (some value))
  | .added _ pre key _ result => Function.update m pre (Function.update (m pre) key (some (longToV result)))
  | .destroyed _ pre => Function.update m pre fun _ => none

def shared (log : List Event) : Shared := log.foldl Event.effect fun _ _ => none

/-- The number that an `add` finds. -/
def Shared.base (m : Shared) (pre key : String) : Int := ((m pre key).bind vToLong).getD 0

/-- A `set` of the key, or a `destroy` of its prefix. -/
def Event.interrupts (pre key : String) : Event → Bool
  | .set _ p k _ => p = pre ∧ k = key
  | .added _ _ _ _ _ => false
  | .destroyed _ p => p = pre

/-- An `add` to the key: the amount and the result. -/
def Event.addition (pre key : String) : Event → Option (Int × Int)
  | .added _ p k amount result => if p = pre ∧ k = key then some (amount,result) else none
  | _ => none

def Event.stores (pre key : String) (value : Bytes) : Event → Prop
  | .set _ p k v => p = pre ∧ k = key ∧ v = value
  | .added _ p k _ result => p = pre ∧ k = key ∧ longToV result = value
  | .destroyed _ _ => False

def Event.id : Event → Nat
  | .set id _ _ _ | .added id _ _ _ _ | .destroyed id _ => id

def runningSums (base : Int) : List Int → List Int
  | [] => []
  | amount :: rest => (base + amount) :: runningSums (base + amount) rest

/-- The answers given so far are those of one shared map. The moments between two lengths
of the log are its prefixes between them. -/
structure Answers (s : State) : Prop where
  values : ∀ id pre key value, s.calls id = some ⟨.get pre key,.answered (.value value)⟩ →
    ∃ event ∈ s.log, event.stores pre key value
  adds : ∀ id pre key amount result,
    s.calls id = some ⟨.add pre key amount,.answered (.added result)⟩ ↔
      Event.added id pre key amount result ∈ s.log
  once : (s.log.map Event.id).Nodup
  sums : ∀ pre key before adds after, s.log = before ++ adds ++ after →
    (∀ event ∈ adds, event.interrupts pre key = false) →
    let additions := adds.filterMap (Event.addition pre key)
    let sums := runningSums ((shared before).base pre key) (additions.map Prod.fst)
    (∀ sum ∈ sums, InLong sum) → additions.map Prod.snd = sums
  timeouts : ∀ id pre key since upto, s.calls id = some ⟨.get pre key,.answered (.timeout since upto)⟩ →
    ∀ n, since ≤ n → n ≤ upto → shared (s.log.take n) pre key = none

private theorem shared_append (log : List Event) (event : Event) : shared (log ++ [event]) = event.effect (shared log) := by
  rw [shared,List.foldl_append]
  rfl

def Event.destroys (pre : String) : Event → Bool
  | .destroyed _ p => p = pre
  | _ => false

private theorem Event.effect_isSome {m : Shared} {event : Event} {pre key : String} (kept : event.destroys pre = false)
    (some_value : (m pre key).isSome) : (event.effect m pre key).isSome := by
  cases event with
  | set id p k v | added id p k amount result =>
    simp only [Event.effect,Function.update_apply]
    by_cases same : pre = p
    · subst same
      simp only [if_true,Function.update_apply]
      split
      · rfl
      · exact some_value
    · simp only [same,if_false,some_value]
  | destroyed id p =>
    have other : pre ≠ p := by
      rintro rfl
      simp [Event.destroys] at kept
    simp only [Event.effect,Function.update_of_ne other,some_value]

private theorem shared_absent {log : List Event} {pre key : String} {since : Nat}
    (kept : ∀ event ∈ log.drop since, event.destroys pre = false) (absent : shared log pre key = none)
    {n : Nat} (after : since ≤ n) (before : n ≤ log.length) : shared (log.take n) pre key = none := by
  have later (rest : List Event) (kept : ∀ event ∈ rest, event.destroys pre = false) (m : Shared)
      (some_value : (m pre key).isSome) : (rest.foldl Event.effect m pre key).isSome := by
    induction rest generalizing m with
    | nil => exact some_value
    | cons event rest ih =>
      exact ih (fun e member => kept e (List.mem_cons_of_mem _ member)) _
        (Event.effect_isSome (kept event List.mem_cons_self) some_value)
  by_contra there
  have grown := later (log.drop n) (fun event member => kept event (by
    obtain ⟨d,rfl⟩ := Nat.exists_eq_add_of_le after
    rw [← List.drop_drop] at member
    exact List.mem_of_mem_drop member)) (shared (log.take n)) (Option.isSome_iff_ne_none.mpr there)
  rw [shared,← List.foldl_append,List.take_append_drop] at grown
  rw [shared] at absent
  rw [absent] at grown
  contradiction

private theorem shared_stored {log : List Event} {pre key : String} {value : Bytes}
    (there : shared log pre key = some value) : ∃ event ∈ log, event.stores pre key value := by
  induction log using List.reverseRecOn with
  | nil => simp [shared] at there
  | append_singleton log event ih =>
    rw [shared_append] at there
    have earlier (same : shared log pre key = some value) : ∃ e ∈ log ++ [event], e.stores pre key value := by
      obtain ⟨e,member,stores⟩ := ih same
      exact ⟨e,List.mem_append_left _ member,stores⟩
    have here : event ∈ log ++ [event] := List.mem_append_right _ (List.mem_singleton_self event)
    cases event with
    | set id p k v | added id p k amount result =>
      simp only [Event.effect,Function.update_apply] at there
      split at there
      · rename_i same
        subst same
        simp only [Function.update_apply] at there
        split at there
        · rename_i same
          exact ⟨_,here,rfl,same.symm,Option.some.inj there⟩
        · exact earlier there
      · exact earlier there
    | destroyed id p =>
      simp only [Event.effect,Function.update_apply] at there
      split at there
      · contradiction
      · exact earlier there

private theorem wrapLong_of_inLong {x : Int} (small : InLong x) : wrapLong x = x := by
  unfold InLong at small
  unfold wrapLong
  omega

private theorem vToLong_longToV (x : Int) : vToLong (longToV x) = some (wrapLong x) := by
  have high : 0 ≤ x / 4294967296 % 4294967296 := by omega
  have low : 0 ≤ x % 4294967296 := by omega
  have length : (longToV x).length = 8 := rfl
  have joined : (fromBytes (longToV x) : Int) = x / 4294967296 % 4294967296 * 4294967296 + x % 4294967296 := by
    simp only [fromBytes,longToV,packInt,List.cons_append,List.nil_append,List.foldl_cons,List.foldl_nil,
      UInt8.toNat_ofNat',Nat.reducePow]
    omega
  rw [vToLong,if_pos length,joined]
  unfold wrapLong
  congr 1
  omega

private theorem longToV_wrapLong (x : Int) : longToV (wrapLong x) = longToV x := by
  have low : wrapLong x % 4294967296 = x % 4294967296 := by
    unfold wrapLong
    omega
  have high : wrapLong x / 4294967296 % 4294967296 = x / 4294967296 % 4294967296 := by
    unfold wrapLong
    omega
  simp only [longToV,packInt,low,high]

private theorem compute_spec {old : Option Bytes} {amount : Int} {value : Bytes}
    (computed : State.compute old amount = some value) :
    value = longToV ((vToLong value).getD 0) ∧
      (vToLong value).getD 0 = wrapLong ((old.bind vToLong).getD 0 + amount) := by
  have sum (n : Int) (same : value = longToV n) : value = longToV ((vToLong value).getD 0) ∧
      (vToLong value).getD 0 = wrapLong n := by
    rw [same,vToLong_longToV,Option.getD_some]
    exact ⟨(longToV_wrapLong n).symm,rfl⟩
  cases old with
  | none =>
    cases computed
    simpa using sum amount rfl
  | some v =>
    rw [State.compute,Option.map_eq_some_iff] at computed
    obtain ⟨n,read,same⟩ := computed
    simpa [read] using sum (n + amount) same.symm

/-- The prefix and the store of a `get` that has not answered, and when it looked it up. -/
def Call.waits : Call → Option (String × Nat × Nat)
  | ⟨.get pre _,.looked store since⟩ | ⟨.get pre _,.contained store since⟩ => some (pre,store,since)
  | _ => none

private theorem Call.works_of_waits {call : Call} {pre : String} {store since : Nat}
    (waiting : call.waits = some (pre,store,since)) : call.works = some (pre,store) := by
  unfold Call.waits at waiting
  split at waiting <;> cases waiting <;> rfl

structure Fine (s : State) (call : Call) : Prop where
  works : ∀ pre store, call.works = some (pre,store) → store < s.next ∧ ∀ p, s.stores p = some store → p = pre
  cleared : ∀ store, call.place = .clearing store → store < s.next ∧ ∀ p, s.stores p ≠ some store
  waits : ∀ pre store since, call.waits = some (pre,store,since) → since ≤ s.log.length ∧
    (s.stores pre = some store → ∀ event ∈ s.log.drop since, event.destroys pre = false)
  found : ∀ pre key store since, call = ⟨.get pre key,.contained store since⟩ → s.stores pre = some store →
    (s.maps store key).isSome
  value : ∀ pre key value, call = ⟨.get pre key,.answered (.value value)⟩ →
    ∃ event ∈ s.log, event.stores pre key value
  timeout : ∀ pre key since upto, call = ⟨.get pre key,.answered (.timeout since upto)⟩ →
    upto ≤ s.log.length ∧ ∀ n, since ≤ n → n ≤ upto → shared (s.log.take n) pre key = none

def Truthful (log : List Event) : Prop :=
  ∀ before id pre key amount result after, log = before ++ .added id pre key amount result :: after →
    result = wrapLong ((shared before).base pre key + amount)

structure Invariant (s : State) : Prop where
  below : ∀ pre store, s.stores pre = some store → store < s.next
  apart : ∀ p q store, s.stores p = some store → s.stores q = some store → p = q
  agree : ∀ pre key, shared s.log pre key = (s.stores pre).bind fun store => s.maps store key
  fine : ∀ id call, s.calls id = some call → Fine s call
  truthful : Truthful s.log
  adds : ∀ id pre key amount result, s.calls id = some ⟨.add pre key amount,.answered (.added result)⟩ ↔
    Event.added id pre key amount result ∈ s.log
  done : ∀ event ∈ s.log, ∃ call, s.calls event.id = some call ∧ call.works = none
  once : (s.log.map Event.id).Nodup

theorem Truthful.record {log : List Event} (truthful : Truthful log) {event : Event}
    (true_result : ∀ id pre key amount result, event = .added id pre key amount result →
      result = wrapLong ((shared log).base pre key + amount)) : Truthful (log ++ [event]) := by
  intro before id pre key amount result after split
  induction after using List.reverseRecOn with
  | nil =>
    obtain ⟨same,last⟩ := List.append_inj' split rfl
    exact same ▸ true_result id pre key amount result (List.singleton_inj.mp last)
  | append_singleton after last _ =>
    have longer : log ++ [event] = (before ++ .added id pre key amount result :: after) ++ [last] := by simpa using split
    exact truthful before id pre key amount result after (List.append_inj' longer rfl).1

namespace Fine
variable {s : State} {call : Call}

theorem record (fine : Fine s call) {event : Event}
    (kept : ∀ pre store since, call.waits = some (pre,store,since) → s.stores pre = some store →
      event.destroys pre = false) : Fine (s.record event) call where
  works := fine.works
  cleared := fine.cleared
  waits pre store since waiting := by
    obtain ⟨before,undestroyed⟩ := fine.waits pre store since waiting
    refine ⟨by simp only [State.record,List.length_append]; omega,fun here e member => ?_⟩
    simp only [State.record,List.drop_append_of_le_length before,List.mem_append,List.mem_singleton] at member
    rcases member with old | rfl
    · exact undestroyed here e old
    · exact kept pre store since waiting here
  found := fine.found
  value pre key value answered := by
    obtain ⟨e,member,stores⟩ := fine.value pre key value answered
    exact ⟨e,List.mem_append_left _ member,stores⟩
  timeout pre key since upto answered := by
    obtain ⟨inside,absent⟩ := fine.timeout pre key since upto answered
    refine ⟨by simp only [State.record,List.length_append]; omega,fun n after before => ?_⟩
    simp only [State.record,List.take_append_of_le_length (Nat.le_trans before inside)]
    exact absent n after before

theorem put (fine : Fine s call) {store : Nat} {key : String} {value : Option Bytes}
    (kept : value = none → ∀ pre, s.stores pre ≠ some store) : Fine (s.put store key value) call where
  works := fine.works
  cleared := fine.cleared
  waits := fine.waits
  found pre k other since at_get here := by
    have there := fine.found pre k other since at_get here
    by_cases same : other = store
    · subst same
      by_cases same : k = key
      · cases value with
        | none => exact absurd here (kept rfl pre)
        | some v => simp [State.put,same]
      · simpa [State.put,Function.update_of_ne same] using there
    · simpa [State.put,Function.update_of_ne same] using there
  value := fine.value
  timeout := fine.timeout

private theorem make (fine : Fine s call) {pre : String} : Fine (s.make pre) call := by
  have old {p : String} {store : Nat} (below : store < s.next)
      (here : (s.make pre).stores p = some store) : s.stores p = some store := by
    simp only [State.make,Function.update_apply] at here
    split at here
    · cases here
      exact absurd below (Nat.lt_irrefl _)
    · exact here
  constructor
  · intro p store working
    obtain ⟨below,mine⟩ := fine.works p store working
    exact ⟨Nat.lt_succ_of_lt below,fun q here => mine q (old below here)⟩
  · intro store clearing
    obtain ⟨below,unseen⟩ := fine.cleared store clearing
    exact ⟨Nat.lt_succ_of_lt below,fun q here => unseen q (old below here)⟩
  · intro p store since waiting
    obtain ⟨inside,undestroyed⟩ := fine.waits p store since waiting
    exact ⟨inside,fun here => undestroyed (old (fine.works p store (Call.works_of_waits waiting)).1 here)⟩
  · intro p key store since at_get here
    have below := (fine.works p store (by rw [at_get]; rfl)).1
    have there := fine.found p key store since at_get (old below here)
    simp only [State.make,Function.update_of_ne (Nat.ne_of_lt below),there]
  · exact fine.value
  · exact fine.timeout

theorem remove (fine : Fine s call) {pre : String} : Fine (s.remove pre) call := by
  have old {p : String} {store : Nat} (here : (s.remove pre).stores p = some store) :
      s.stores p = some store ∧ p ≠ pre := by
    simp only [State.remove,Function.update_apply] at here
    split at here
    · contradiction
    · rename_i other
      exact ⟨here,other⟩
  constructor
  · intro p store working
    obtain ⟨below,mine⟩ := fine.works p store working
    exact ⟨below,fun q here => mine q (old here).1⟩
  · intro store clearing
    obtain ⟨below,unseen⟩ := fine.cleared store clearing
    exact ⟨below,fun q here => unseen q (old here).1⟩
  · intro p store since waiting
    obtain ⟨inside,undestroyed⟩ := fine.waits p store since waiting
    exact ⟨inside,fun here => undestroyed (old here).1⟩
  · intro p key store since at_get here
    exact fine.found p key store since at_get (old here).1
  · exact fine.value
  · exact fine.timeout

end Fine

namespace Invariant
variable {s : State} {id : Nat}

theorem init : Invariant State.init where
  below _ _ here := by simp [State.init] at here
  apart _ _ _ here := by simp [State.init] at here
  agree _ _ := rfl
  fine _ _ known := by simp [State.init] at known
  truthful _ _ _ _ _ _ _ split := by simp [State.init] at split
  adds _ _ _ _ _ := by simp [State.init]
  done _ member := by simp [State.init] at member
  once := by simp [State.init]

theorem goto (inv : Invariant s) {request : Request} {place : Place} (fine : Fine s ⟨request,place⟩)
    (unanswered : ∀ amount, place ≠ .answered (.added amount))
    (silent : ∀ event ∈ s.log, event.id = id → (∀ pre key amount result, event ≠ .added id pre key amount result) ∧
      (⟨request,place⟩ : Call).works = none) : Invariant (s.goto id request place) where
  below := inv.below
  apart := inv.apart
  agree := inv.agree
  fine other call known := by
    simp only [State.goto,Function.update_apply] at known
    split at known
    · cases known
      exact ⟨fine.works,fine.cleared,fine.waits,fine.found,fine.value,fine.timeout⟩
    · have before := inv.fine other call known
      exact ⟨before.works,before.cleared,before.waits,before.found,before.value,before.timeout⟩
  truthful := inv.truthful
  adds other pre key amount result := by
    simp only [State.goto,Function.update_apply]
    split
    · rename_i same
      subst same
      constructor
      · intro answered
        cases answered
        exact absurd rfl (unanswered result)
      · intro member
        exact absurd rfl ((silent _ member rfl).1 pre key amount result)
    · exact inv.adds other pre key amount result
  done event member := by
    simp only [State.goto,Function.update_apply]
    split
    · rename_i same
      exact ⟨_,rfl,(silent event member same).2⟩
    · exact inv.done event member
  once := inv.once

theorem event (inv : Invariant s) (t : State) (event : Event) {request : Request} {place : Place}
    (mine : event.id = id) (unused : ∀ e ∈ s.log, e.id ≠ id) (logged : t.log = s.log ++ [event])
    (calls : t.calls = s.calls) (below : ∀ pre store, t.stores pre = some store → store < t.next)
    (apart : ∀ p q store, t.stores p = some store → t.stores q = some store → p = q)
    (agree : ∀ pre key, event.effect (shared s.log) pre key = (t.stores pre).bind fun store => t.maps store key)
    (others : ∀ call, Fine s call → Fine t call) (fine : Fine t ⟨request,place⟩)
    (settled : (⟨request,place⟩ : Call).works = none)
    (true_result : ∀ id pre key amount result, event = .added id pre key amount result →
      result = wrapLong ((shared s.log).base pre key + amount))
    (adds : ∀ pre key amount result, (⟨request,place⟩ : Call) = ⟨.add pre key amount,.answered (.added result)⟩ ↔
      event = .added id pre key amount result) : Invariant (t.goto id request place) where
  below := below
  apart := apart
  agree pre key := by
    simp only [State.goto,logged,shared_append]
    exact agree pre key
  fine other call known := by
    have known : Function.update s.calls id (some ⟨request,place⟩) other = some call := by
      rw [← calls]
      exact known
    rw [Function.update_apply] at known
    split at known
    · cases known
      exact ⟨fine.works,fine.cleared,fine.waits,fine.found,fine.value,fine.timeout⟩
    · have before := others call (inv.fine other call known)
      exact ⟨before.works,before.cleared,before.waits,before.found,before.value,before.timeout⟩
  truthful := by
    simp only [State.goto,logged]
    exact inv.truthful.record true_result
  adds other pre key amount result := by
    simp only [State.goto,logged,calls,Function.update_apply,List.mem_append,List.mem_singleton]
    split
    · rename_i same
      subst same
      rw [Option.some.injEq,adds,eq_comm]
      have fresh : Event.added other pre key amount result ∉ s.log := fun member => unused _ member rfl
      simp only [fresh,false_or]
    · rename_i other_id
      have different : Event.added other pre key amount result ≠ event := by
        rintro rfl
        exact other_id mine
      simp only [different,or_false]
      exact inv.adds other pre key amount result
  done e member := by
    simp only [State.goto,logged,calls,Function.update_apply,List.mem_append,List.mem_singleton] at member ⊢
    rcases member with old | rfl
    · rw [if_neg (unused e old)]
      exact inv.done e old
    · rw [if_pos mine]
      exact ⟨_,rfl,settled⟩
  once := by
    simp only [State.goto,logged,List.map_append,List.map_singleton,mine]
    refine List.nodup_append.mpr ⟨inv.once,by simp,?_⟩
    intro a inside b new
    obtain ⟨e,member,rfl⟩ := List.mem_map.mp inside
    rw [List.mem_singleton.mp new]
    exact unused e member

private theorem make (inv : Invariant s) {pre : String} (absent : s.stores pre = none) : Invariant (s.make pre) where
  below p store here := by
    simp only [State.make,Function.update_apply] at here ⊢
    split at here
    · cases here
      omega
    · exact Nat.lt_succ_of_lt (inv.below p store here)
  apart p q store one two := by
    simp only [State.make,Function.update_apply] at one two
    split at one <;> split at two
    · simp_all
    · cases one
      exact absurd (inv.below q _ two) (Nat.lt_irrefl _)
    · cases two
      exact absurd (inv.below p _ one) (Nat.lt_irrefl _)
    · exact inv.apart p q store one two
  agree p key := by
    simp only [State.make,inv.agree p key,Function.update_apply]
    by_cases same : p = pre
    · simp [same,absent]
    · rw [if_neg same]
      cases here : s.stores p with
      | none => rfl
      | some store => simp only [Option.bind_some,if_neg (Nat.ne_of_lt (inv.below p store here))]
  fine id call known := (inv.fine id call known).make
  truthful := inv.truthful
  adds := inv.adds
  done := inv.done
  once := inv.once

private theorem getStore (inv : Invariant s) (pre : String) :
    Invariant (s.getStore pre).1 ∧ (s.getStore pre).1.stores pre = some (s.getStore pre).2 ∧
      (s.getStore pre).1.calls = s.calls ∧ (s.getStore pre).1.log = s.log := by
  unfold State.getStore
  split
  · rename_i store here
    exact ⟨inv,here,rfl,rfl⟩
  · rename_i absent
    exact ⟨inv.make absent,Function.update_self _ _ _,rfl,rfl⟩

theorem unused (inv : Invariant s) (new : s.calls id = none) : ∀ event ∈ s.log, event.id ≠ id := by
  rintro event member rfl
  obtain ⟨call,known,-⟩ := inv.done event member
  rw [new] at known
  contradiction

private theorem look_up (inv : Invariant s) (new : s.calls id = none) {request : Request} {pre : String}
    (works : ∀ store since, (⟨request,.looked store since⟩ : Call).works = some (pre,store))
    (waits : ∀ p store store' since since', (⟨request,.looked store since⟩ : Call).waits = some (p,store',since') →
      p = pre ∧ since' = since) :
    Invariant ((s.getStore pre).1.goto id request (.looked (s.getStore pre).2 s.log.length)) := by
  obtain ⟨inv',here,calls,log⟩ := inv.getStore pre
  have unused := inv.unused new
  rw [← log] at unused ⊢
  apply inv'.goto
  · constructor
    · intro p store working
      rw [works] at working
      cases working
      exact ⟨inv'.below _ _ here,fun q there => inv'.apart _ _ _ there here⟩
    · intro store clearing
      cases clearing
    · intro p store since waiting
      obtain ⟨rfl,rfl⟩ := waits _ _ _ _ _ waiting
      refine ⟨Nat.le_refl _,fun _ event member => ?_⟩
      rw [List.drop_length] at member
      contradiction
    · intro p key store since at_get
      cases at_get
    · intro p key value answered
      cases answered
    · intro p key since upto answered
      cases answered
  · intro amount answered
    cases answered
  · intro event member mine
    exact absurd mine (unused event member)

end Invariant

theorem Fine.answered {s : State} {request : Request} {response : Response} (unread : ∀ value, response ≠ .value value)
    (prompt : ∀ since upto, response ≠ .timeout since upto) : Fine s ⟨request,.answered response⟩ where
  works _ _ working := by cases request <;> cases working
  cleared _ clearing := by cases clearing
  waits _ _ _ waiting := by cases request <;> cases waiting
  found _ _ _ _ at_get := by cases at_get
  value _ _ value answered := by
    cases answered
    exact absurd rfl (unread value)
  timeout _ _ since upto answered := by
    cases answered
    exact absurd rfl (prompt since upto)

namespace Invariant
variable {s s' : State} {id : Nat}

theorem removed (inv : Invariant s) (new : s.calls id = none) {pre : String} {place : Place}
    (fine : Fine ((s.remove pre).record (.destroyed id pre)) ⟨.destroy pre,place⟩)
    (settled : (⟨.destroy pre,place⟩ : Call).works = none) :
    Invariant (((s.remove pre).record (.destroyed id pre)).goto id (.destroy pre) place) := by
  have old {p : String} {store : Nat} (here : (s.remove pre).stores p = some store) :
      s.stores p = some store ∧ p ≠ pre := by
    simp only [State.remove,Function.update_apply] at here
    split at here
    · contradiction
    · rename_i other
      exact ⟨here,other⟩
  apply inv.event ((s.remove pre).record (.destroyed id pre)) (.destroyed id pre) rfl (inv.unused new) rfl rfl
  · exact fun p store here => inv.below p store (old here).1
  · exact fun p q store one two => inv.apart p q store (old one).1 (old two).1
  · intro p key
    simp only [Event.effect,State.record,State.remove,Function.update_apply]
    by_cases same : p = pre
    · simp [same]
    · simp [same,inv.agree p key]
  · intro call before
    apply before.remove.record
    intro p store since waiting here
    simp [Event.destroys,(old here).2.symm]
  · exact fine
  · exact settled
  · intro _ _ _ _ _ other
    cases other
  · intro _ _ _ _
    constructor
    · intro other
      cases other
    · intro other
      cases other

theorem invoke (inv : Invariant s) (new : s.calls id = none) (request : Request) : Invariant (s.invoke id request) := by
  cases request with
  | set pre key value =>
    apply inv.look_up new
    · intro store since
      rfl
    · intro p store store' since since' waiting
      cases waiting
  | add pre key amount =>
    apply inv.look_up new
    · intro store since
      rfl
    · intro p store store' since since' waiting
      cases waiting
  | get pre key =>
    apply inv.look_up new
    · intro store since
      rfl
    · intro p store store' since since' waiting
      cases waiting
      exact ⟨rfl,rfl⟩
  | destroy pre =>
    simp only [State.invoke]
    split
    · rename_i store here
      refine inv.removed new ⟨?_,?_,?_,?_,?_,?_⟩ rfl
      · intro p store working
        cases working
      · intro store clearing
        cases clearing
        refine ⟨inv.below pre store here,fun p there => ?_⟩
        simp only [State.record,State.remove,Function.update_apply] at there
        split at there
        · contradiction
        · rename_i other
          exact other (inv.apart p pre store there here)
      · intro p store since waiting
        cases waiting
      · intro p key store since at_get
        cases at_get
      · intro p key value answered
        cases answered
      · intro p key since upto answered
        cases answered
    · exact inv.removed new (Fine.answered (fun _ => by simp) (fun _ _ => by simp)) rfl

theorem write (inv : Invariant s) {call : Call} (known : s.calls id = some call) {pre key : String} {store : Nat}
    {value : Bytes} {event : Event} {request : Request} {response : Response}
    (working : call.works = some (pre,store)) (here : s.stores pre = some store) (mine : event.id = id)
    (effect : ∀ m : Shared, event.effect m = Function.update m pre (Function.update (m pre) key (some value)))
    (kept : ∀ p, event.destroys p = false) (unread : ∀ value, response ≠ .value value)
    (prompt : ∀ since upto, response ≠ .timeout since upto)
    (settled : (⟨request,.answered response⟩ : Call).works = none)
    (true_result : ∀ id pre key amount result, event = .added id pre key amount result →
      result = wrapLong ((shared s.log).base pre key + amount))
    (adds : ∀ pre key amount result, (⟨request,.answered response⟩ : Call) =
      ⟨.add pre key amount,.answered (.added result)⟩ ↔ event = .added id pre key amount result) :
    Invariant (((s.put store key (some value)).record event).goto id request (.answered response)) := by
  have unused : ∀ e ∈ s.log, e.id ≠ id := by
    rintro e member rfl
    obtain ⟨call',known',idle⟩ := inv.done e member
    rw [known] at known'
    cases known'
    rw [working] at idle
    contradiction
  apply inv.event ((s.put store key (some value)).record event) event mine unused rfl rfl inv.below inv.apart
  · intro p k
    rw [effect]
    simp only [State.record,State.put,Function.update_apply]
    by_cases same : p = pre
    · subst same
      by_cases same : k = key
      · simp [same,here]
      · simp [same,here,inv.agree p k]
    · simp only [same,if_false,inv.agree p k]
      cases there : s.stores p with
      | none => rfl
      | some other =>
        have different : other ≠ store := by
          rintro rfl
          exact same (inv.apart p pre other there here)
        simp [different]
  · intro call before
    exact (before.put fun none_put => by cases none_put).record fun p store since _ _ => kept p
  · exact Fine.answered unread prompt
  · exact settled
  · exact true_result
  · exact adds

theorem pass (inv : Invariant s) {call : Call} (known : s.calls id = some call) {request : Request} {place : Place}
    (unanswered : ∀ pre key amount result, call ≠ ⟨.add pre key amount,.answered (.added result)⟩)
    (settled : call.works = none → (⟨request,place⟩ : Call).works = none)
    (fine : Fine s ⟨request,place⟩) (silent : ∀ amount, place ≠ .answered (.added amount)) :
    Invariant (s.goto id request place) := by
  apply inv.goto fine silent
  rintro event member rfl
  obtain ⟨call',known',idle⟩ := inv.done event member
  rw [known] at known'
  cases known'
  refine ⟨?_,settled idle⟩
  intro pre key amount result same
  have answered := (inv.adds event.id pre key amount result).mpr (same ▸ member)
  rw [known] at answered
  exact unanswered pre key amount result (Option.some.inj answered)

/-- A poll that does not find the key, in the store of its prefix: there was nothing to be
found since the store was looked up. -/
theorem timed_out (inv : Invariant s) {pre key : String} {store since : Nat}
    (known : s.calls id = some ⟨.get pre key,.looked store since⟩) (here : s.stores pre = some store)
    (absent : s.maps store key = none) :
    Invariant (s.goto id (.get pre key) (.answered (.timeout since s.log.length))) := by
  obtain ⟨-,undestroyed⟩ := (inv.fine id _ known).waits pre store since rfl
  have nothing : shared s.log pre key = none := by
    rw [inv.agree,here]
    exact absent
  apply inv.pass known
  · intro p k amount result other
    cases other
  · intro _
    rfl
  · refine ⟨?_,?_,?_,?_,?_,?_⟩
    · intro p store working
      cases working
    · intro store clearing
      cases clearing
    · intro p store since waiting
      cases waiting
    · intro p k store since at_get
      cases at_get
    · intro p k value answered
      cases answered
    · intro p k since' upto answered
      cases answered
      exact ⟨Nat.le_refl _,fun n after before => shared_absent (undestroyed here) nothing after before⟩
  · intro amount answered
    cases answered

theorem advance (inv : Invariant s) {call : Call} (known : s.calls id = some call)
    (registered : ∀ pre store, call.works = some (pre,store) → s.stores pre = some store)
    (stepped : s.advance id call = some s') : Invariant s' := by
  unfold State.advance at stepped
  split at stepped
  case h_1 pre key value store since =>
    cases stepped
    apply inv.write known rfl (registered pre store rfl) rfl
    · exact fun _ => rfl
    · exact fun _ => rfl
    · exact fun _ => by simp
    · exact fun _ _ => by simp
    · rfl
    · intro _ _ _ _ _ other
      cases other
    · intro _ _ _ _
      constructor
      · intro other
        cases other
      · intro other
        cases other
  case h_2 pre key amount store since =>
    have here := registered pre store rfl
    split at stepped
    · cases stepped
      apply inv.pass known
      · intro p k amount result other
        cases other
      · intro _
        rfl
      · exact Fine.answered (fun _ => by simp) (fun _ _ => by simp)
      · intro amount answered
        cases answered
    · rename_i value computed
      cases stepped
      obtain ⟨same,sum⟩ := compute_spec computed
      apply inv.write known rfl here rfl
      · intro m
        simp only [Event.effect]
        rw [← same]
      · exact fun _ => rfl
      · exact fun _ => by simp
      · exact fun _ _ => by simp
      · rfl
      · intro _ _ _ _ _ new
        cases new
        rw [sum,Shared.base,inv.agree,here]
        rfl
      · intro p k amount result
        constructor
        · intro answered
          cases answered
          rfl
        · intro added
          cases added
          rfl
  case h_3 pre key store since =>
    have here := registered pre store rfl
    have waiting := inv.fine id _ known
    split at stepped
    · rename_i there
      cases stepped
      apply inv.pass known
      · intro p k amount result other
        cases other
      · intro idle
        cases idle
      · refine ⟨?_,?_,?_,?_,?_,?_⟩
        · intro p store working
          cases working
          exact waiting.works _ _ rfl
        · intro store clearing
          cases clearing
        · intro p store since waits
          cases waits
          exact waiting.waits _ _ _ rfl
        · intro p k store since at_get _
          cases at_get
          exact there
        · intro p k value answered
          cases answered
        · intro p k since upto answered
          cases answered
      · intro amount answered
        cases answered
    · cases stepped
      exact inv
  case h_4 pre key store since =>
    have here := registered pre store rfl
    have there := (inv.fine id _ known).found pre key store since rfl here
    split at stepped
    · rename_i value found
      cases stepped
      apply inv.pass known
      · intro p k amount result other
        cases other
      · intro _
        rfl
      · refine ⟨?_,?_,?_,?_,?_,?_⟩
        · intro p store working
          cases working
        · intro store clearing
          cases clearing
        · intro p store since waits
          cases waits
        · intro p k store since at_get
          cases at_get
        · intro p k value answered
          cases answered
          apply shared_stored
          rw [inv.agree,here]
          exact found
        · intro p k since upto answered
          cases answered
      · intro amount answered
        cases answered
    · rename_i lost
      rw [lost] at there
      contradiction
  case h_5 pre store =>
    cases stepped
    apply inv.pass known
    · intro p k amount result other
      cases other
    · intro _
      rfl
    · exact Fine.answered (fun _ => by simp) (fun _ _ => by simp)
    · intro amount answered
      cases answered
  case h_6 => cases stepped

private theorem give_up (inv : Invariant s) {call : Call} (known : s.calls id = some call)
    (registered : ∀ pre store, call.works = some (pre,store) → s.stores pre = some store)
    (stepped : s.give_up id call = some s') : Invariant s' := by
  unfold State.give_up at stepped
  split at stepped
  · rename_i pre key store since
    split at stepped
    · rename_i absent
      cases stepped
      exact inv.timed_out known (registered pre store rfl) (by simpa using absent)
    · cases stepped
  · cases stepped

theorem clear (inv : Invariant s) {call : Call} (known : s.calls id = some call) {key : String}
    (stepped : s.clear key call = some s') : Invariant s' := by
  unfold State.clear at stepped
  split at stepped
  · rename_i pre store
    cases stepped
    have unseen := ((inv.fine id _ known).cleared store rfl).2
    refine ⟨inv.below,inv.apart,?_,?_,inv.truthful,inv.adds,inv.done,inv.once⟩
    · intro p k
      refine (inv.agree p k).trans ?_
      cases there : s.stores p with
      | none => simp [State.put,there]
      | some other =>
        have different : other ≠ store := by
          rintro rfl
          exact unseen p there
        simp [State.put,there,different]
    · intro other call before
      exact (inv.fine other call before).put fun _ p => unseen p
  · cases stepped

theorem step (inv : Invariant s) {act : Act} (stepped : (system.restrict registered).step s act = some s') :
    Invariant s' := by
  obtain ⟨allowed,stepped⟩ := (System.restrict_step_iff _ _ _ _ _).mp stepped
  have here {id : Nat} {call : Call} (known : s.calls id = some call)
      (allowed : registered s (.advance id) = true) (pre : String) (store : Nat)
      (working : call.works = some (pre,store)) : s.stores pre = some store := by
    simp only [registered,known,Option.bind_some,working,decide_eq_true_eq] at allowed
    exact allowed
  cases act with
  | invoke id request =>
    simp only [system] at stepped
    split at stepped
    · rename_i new
      cases stepped
      exact inv.invoke (by simpa using new) request
    · cases stepped
  | advance id =>
    obtain ⟨call,known,moved⟩ := Option.bind_eq_some_iff.mp stepped
    exact inv.advance known (here known allowed) moved
  | give_up id =>
    obtain ⟨call,known,moved⟩ := Option.bind_eq_some_iff.mp stepped
    exact inv.give_up known (here known allowed) moved
  | clear id key =>
    obtain ⟨call,known,moved⟩ := Option.bind_eq_some_iff.mp stepped
    exact inv.clear known moved

end Invariant

private theorem Shared.base_effect {m : Shared} {pre key : String} {event : Event} (quiet : event.interrupts pre key = false)
    (other : event.addition pre key = none) : (event.effect m).base pre key = m.base pre key := by
  have untouched : event.effect m pre key = m pre key := by
    cases event with
    | set id p k v =>
      simp only [Event.interrupts,decide_eq_false_iff_not,not_and] at quiet
      simp only [Event.effect,Function.update_apply]
      split
      · rename_i same
        have different : key ≠ k := fun equal => quiet same.symm equal.symm
        rw [Function.update_of_ne different,same]
      · rfl
    | added id p k amount result =>
      simp only [Event.addition,ite_eq_right_iff,reduceCtorEq,imp_false,not_and] at other
      simp only [Event.effect,Function.update_apply]
      split
      · rename_i same
        have different : key ≠ k := fun equal => other same.symm equal.symm
        rw [Function.update_of_ne different,same]
      · rfl
    | destroyed id p =>
      simp only [Event.interrupts,decide_eq_false_iff_not] at quiet
      simp only [Event.effect,Function.update_of_ne (Ne.symm quiet)]
  rw [Shared.base,untouched]
  rfl

private theorem Event.addition_some {pre key : String} {event : Event} {addition : Int × Int}
    (added : event.addition pre key = some addition) :
    ∃ id, event = .added id pre key addition.1 addition.2 := by
  unfold Event.addition at added
  split at added
  · rename_i id p k amount result
    split at added
    · rename_i same
      cases added
      exact ⟨id,by rw [same.1,same.2]⟩
    · cases added
  · cases added

private theorem Shared.base_added (m : Shared) (id : Nat) (pre key : String) (amount result : Int) :
    ((Event.added id pre key amount result).effect m).base pre key = wrapLong result := by
  simp only [Shared.base,Event.effect,Function.update_self,Option.bind_some,vToLong_longToV,Option.getD_some]

theorem Truthful.sums {log : List Event} (truthful : Truthful log) {pre key : String} (adds : List Event)
    {before after : List Event} (split : log = before ++ adds ++ after)
    (quiet : ∀ event ∈ adds, event.interrupts pre key = false)
    (small : ∀ sum ∈ runningSums ((shared before).base pre key)
      ((adds.filterMap (Event.addition pre key)).map Prod.fst), InLong sum) :
    (adds.filterMap (Event.addition pre key)).map Prod.snd =
      runningSums ((shared before).base pre key) ((adds.filterMap (Event.addition pre key)).map Prod.fst) := by
  induction adds generalizing before with
  | nil => rfl
  | cons event rest ih =>
    have later : log = (before ++ [event]) ++ rest ++ after := by rw [split]; simp
    have ih := ih later fun e member => quiet e (List.mem_cons_of_mem _ member)
    rw [shared_append] at ih
    cases added : event.addition pre key with
    | none =>
      rw [Shared.base_effect (quiet event List.mem_cons_self) added] at ih
      rw [List.filterMap_cons_none added] at small ⊢
      exact ih small
    | some addition =>
      obtain ⟨id,rfl⟩ := Event.addition_some added
      obtain ⟨amount,result⟩ := addition
      rw [List.filterMap_cons_some added] at small ⊢
      simp only [List.map_cons,runningSums,List.mem_cons,forall_eq_or_imp] at small ⊢
      have sum := truthful before id pre key amount result (rest ++ after) (by rw [split]; simp)
      rw [wrapLong_of_inLong small.1] at sum
      rw [Shared.base_added,sum,wrapLong_of_inLong small.1] at ih
      rw [ih small.2,sum]

theorem Invariant.answers {s : State} (inv : Invariant s) : Answers s where
  values id pre key value answered := (inv.fine id _ answered).value pre key value rfl
  adds := inv.adds
  once := inv.once
  sums _ _ _ adds _ split quiet := inv.truthful.sums adds split quiet
  timeouts id pre key since upto answered := ((inv.fine id _ answered).timeout pre key since upto rfl).2

/-- Requests are answered as by one shared map, as long as no store is destroyed under a
request that has looked it up and goes on to use it. -/
theorem answers_shared {s : State} (reached : (system.restrict registered).Reachable s) : Answers s := by
  apply Invariant.answers
  apply System.Reachable.invariant _ _ reached
  · rintro s rfl
    exact Invariant.init
  · exact fun _ _ _ inv stepped => inv.step stepped

/-- A `get` that waits for an `add`, which finds what was set. -/
theorem answers_shared_waiting : ∃ s, Answers s ∧
    s.calls 2 = some ⟨.get "p" "k",.answered (.value (longToV 12))⟩ := by
  have ran : ((system.restrict registered).exec State.init
      [.invoke 2 (.get "p" "k"),.advance 2,.invoke 0 (.set "p" "k" (longToV 5)),.invoke 1 (.add "p" "k" 7),
        .advance 0,.advance 1,.advance 2,.advance 2]).any (fun s =>
      decide (s.calls 2 = some ⟨.get "p" "k",.answered (.value (longToV 12))⟩)) = true := by decide +kernel
  obtain ⟨s,run,found⟩ := (Option.any_eq_true _ _).mp ran
  exact ⟨s,answers_shared ⟨_,_,rfl,run⟩,of_decide_eq_true found⟩

/-- A `get` that waits while its prefix is destroyed and the key is set again. -/
def orphaned : List Act :=
  [.invoke 0 (.get "p" "k"),.invoke 1 (.destroy "p"),.invoke 2 (.set "p" "k" [7]),.advance 2,.give_up 0]

theorem orphaned_not_answers : ∃ s, system.Reachable s ∧ ¬ Answers s := by
  have ran : (system.exec State.init orphaned).any (fun s =>
      decide (s.calls 0 = some ⟨.get "p" "k",.answered (.timeout 0 2)⟩) &&
        decide ((shared (s.log.take 2) "p" "k").isSome = true)) = true := by decide +kernel
  obtain ⟨s,run,found⟩ := (Option.any_eq_true _ _).mp ran
  simp only [Bool.and_eq_true,decide_eq_true_eq] at found
  refine ⟨s,⟨_,orphaned,rfl,run⟩,fun answers => ?_⟩
  have missed := answers.timeouts 0 "p" "k" 0 2 found.1 2 (by decide) (Nat.le_refl 2)
  rw [missed] at found
  exact Bool.noConfusion found.2

end Eggroll.Rendezvous
