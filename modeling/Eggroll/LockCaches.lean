import Mathlib.Algebra.BigOperators.Group.Finset.Basic
import Mathlib.Algebra.Order.BigOperators.Group.Finset
import Mathlib.Data.Prod.Lex
import Eggroll.LockOrder
import Eggroll.LockRefinement

/-! The locks of the cluster manager as `LockUtils` keeps them, in caches that drop their entries. As
long as no entry of a key is dropped that a request is taking, has or is giving back, the requests
see one lock for each key, so that all of them end and give back what they have taken. -/
namespace Eggroll.Cluster.LockCaches
open Library LockUtils
open TerminalStatus (Call Answer Acting World)
open LockOrder (Key Request Run lockAct callAct)

/-- The caches of the machines, with the one of `ResourceStateHandler`, and `sessionLockCache`. -/
inductive Cache
  | machine (cache : LockCache)
  | session
deriving Repr, DecidableEq

instance : Fintype Cache where
  elems := {.machine .session,.machine .processor,.machine .resource,.machine .nodeResource,.session}
  complete cache := by
    rcases cache with ⟨_ | _⟩ | _ <;> decide

def Cache.maximumSize : Cache → ℕ
  | .machine .nodeResource => 1000
  | .machine _ => 3000
  | .session => 1024

def cacheOf : Key → Cache
  | .machine cache _ => .machine cache
  | .session _ => .session

def textOf : Key → String
  | .machine _ key => key
  | .session sessionId => sessionId

def keyOf : LockAct Key → Key
  | .acquire key | .release key => key

def lockCall : (c : Call) → (Except Failure (Answer c) → Acting Unit) →
    Option (LockAct Key × (Except Failure Unit → Acting Unit))
  | .machine (.lock cache key), next => some (.acquire (.machine cache key),next)
  | .machine (.unLock cache key), next => some (.release (.machine cache key),next)
  | .lockSession sessionId, next => some (.acquire (.session sessionId),next)
  | .unlockSession sessionId, next => some (.release (.session sessionId),next)
  | _, _ => none

/-- How a call of `LockUtils` ends. -/
def ended : Option (Thrown String) → Except Failure Unit
  | none => .ok ()
  | some (.runtimeException message key) => .error (.runtime (message ++ key))
  | some .illegalMonitorState => .error (.runtime "")

/-- `came` is history: the requests that have come in. -/
structure State where
  tables : Tables
  looks : ℕ → List (String × Option String)
  calls : ℕ → Option (Request × Acting Unit)
  caches : Cache → LockUtils.State ℕ String
  came : List ℕ

inductive Act
  | invoke (id : ℕ) (request : Request)
  | step (id : ℕ) (world : World)
  | evict (key : Key)
  | expire (key : Key)
deriving Repr, DecidableEq

namespace State

def init (tables : Tables) : State := ⟨tables,fun _ => [],fun _ => none,fun _ => .init,[]⟩

def lockOf (s : State) (key : Key) : ReentrantLock ℕ := (s.caches (cacheOf key)).lockOf (textOf key)

def shared (s : State) : TerminalStatus.State :=
  ⟨s.tables,fun cache key => s.lockOf (.machine cache key),fun sessionId => s.lockOf (.session sessionId),s.looks⟩

def run (s : State) : Run := ⟨s.shared,s.calls⟩

def goOn (s : State) (id : ℕ) (request : Request) (program : Acting Unit) : State :=
  { s with calls := Function.update s.calls id (some (request,program)) }

def setLocks (s : State) (cache : Cache) (locks : LockUtils.State ℕ String) : State :=
  { s with caches := Function.update s.caches cache locks }

def lockStep (s : State) (cache : Cache) (act : LockUtils.Act ℕ String) : Option State :=
  ((LockUtils.system cache.maximumSize).step (s.caches cache) act).map (s.setLocks cache)

/-- A call of `LockUtils` begins or takes its next step; where it is over the request goes on. -/
def inLock (s : State) (id : ℕ) (request : Request) (act : LockAct Key) (next : Except Failure Unit → Acting Unit) :
    Option State :=
  let cache := cacheOf (keyOf act)
  if (s.caches cache).pc id = .idle then
    s.lockStep cache (match act with
      | .acquire key => .lock id (textOf key)
      | .release key => .unLock id (textOf key))
  else (s.lockStep cache (.advance id)).map fun s =>
    if (s.caches cache).pc id = .idle then s.goOn id request (next (ended ((s.caches cache).thrown id))) else s

def advance (s : State) (id : ℕ) (world : World) : Option State :=
  match s.calls id with
  | some (request,.call c next) =>
    match lockCall c next with
    | some (act,next) => s.inLock id request act next
    | none => (TerminalStatus.State.serve id s.shared c world).map fun served =>
      { s.goOn id request (next served.2) with tables := served.1.tables, looks := served.1.looks }
  | _ => none

def drop (s : State) (key : Key) (act : LockUtils.Act ℕ String) : Option State :=
  if ((s.caches (cacheOf key)).entries (textOf key)).isSome then s.lockStep (cacheOf key) act else none

end State

def system (info : MetaInfo) : System State Act where
  start s := ∃ tables, s = .init tables
  step s
    | .invoke id request =>
      match s.calls id with
      | none => some { s.goOn id request (request.program info) with came := id :: s.came }
      | some _ => none
    | .step id world => s.advance id world
    | .evict key => s.drop key (.evict (textOf key))
    | .expire key => s.drop key (.expire (textOf key))

/-- No cache drops the entry of a key that a request is taking, has or is giving back. -/
def spares (s : State) : Act → Bool
  | .evict key | .expire key => s.came.all fun id => ¬ Busy (s.caches (cacheOf key)) id (textOf key)
  | _ => true

/-- Only requests that have come in go on, and the caches. -/
def serving (s : State) : Act → Bool
  | .invoke _ _ => false
  | act => spares s act

/-- In the call of `LockUtils` that is this one. -/
def Under : LockAct Key → Pc String → Prop
  | .acquire key, pc => pc.locking (textOf key)
  | .release key, pc => pc.unlocking (textOf key)

structure Sound (info : MetaInfo) (s : State) : Prop where
  calm : ∀ cache, Calm (s.caches cache)
  calling : ∀ id cache, (s.caches cache).pc id ≠ .idle → ∃ request c next act rest,
    s.calls id = some (request,.call c next) ∧ lockCall c next = some (act,rest) ∧ cacheOf (keyOf act) = cache ∧
      Under act ((s.caches cache).pc id)
  came : ∀ id, s.calls id ≠ none → id ∈ s.came
  reached : (LockOrder.system info).Reachable s.run

variable {info : MetaInfo} {s s' : State} {id : ℕ} {request : Request} {key : Key} {c : Call} {world : World}
  {next : Except Failure (Answer c) → Acting Unit} {act : LockAct Key} {rest : Except Failure Unit → Acting Unit}

private theorem lockCall_none : lockCall c next = none ↔ callAct c = none := by
  cases c with
  | machine op => cases op <;> simp [lockCall,callAct,lockAct]
  | _ => simp [lockCall,callAct]

private theorem lockCall_act (is : lockCall c next = some (act,rest)) : callAct c = some act := by
  cases c with
  | machine op =>
    cases op with
    | lock | unLock =>
      cases is
      rfl
    | _ => cases is
  | lockSession | unlockSession =>
    cases is
    rfl
  | _ => cases is

private theorem serve_acquire (id : ℕ) (world : World) (is : lockCall c next = some (.acquire key,rest))
    (p : TerminalStatus.State) {lock : ReentrantLock ℕ} (taken : (LockOrder.lockOf p key).lock id = some lock) : ∃ q answer,
      TerminalStatus.State.serve id p c world = some (q,answer) ∧ next answer = rest (.ok ()) ∧ q.tables = p.tables ∧
        q.looks = p.looks ∧ LockOrder.lockOf q = Function.update (LockOrder.lockOf p) key lock := by
  cases c with
  | machine op =>
    cases op with
    | lock cache key =>
      cases is
      simp only [LockOrder.lockOf] at taken
      exact ⟨p.setLock cache key lock,.ok (),by simp [TerminalStatus.State.serve,TerminalStatus.State.serveMachine,taken],rfl,
        rfl,rfl,LockOrder.setLock_lockOf p cache key lock⟩
    | _ => cases is
  | lockSession sessionId =>
    cases is
    simp only [LockOrder.lockOf] at taken
    exact ⟨p.setSessionLock sessionId lock,.ok (),by simp [TerminalStatus.State.serve,taken],rfl,rfl,rfl,
      LockOrder.setSessionLock_lockOf p sessionId lock⟩
  | _ => cases is

private theorem serve_release (id : ℕ) (world : World) (is : lockCall c next = some (.release key,rest))
    (p : TerminalStatus.State) {lock : ReentrantLock ℕ} (given : (LockOrder.lockOf p key).unlock id = some lock) : ∃ q answer,
      TerminalStatus.State.serve id p c world = some (q,answer) ∧ next answer = rest (.ok ()) ∧ q.tables = p.tables ∧
        q.looks = p.looks ∧ LockOrder.lockOf q = Function.update (LockOrder.lockOf p) key lock := by
  cases c with
  | machine op =>
    cases op with
    | unLock cache key =>
      cases is
      simp only [LockOrder.lockOf] at given
      exact ⟨p.setLock cache key lock,.ok (),by simp [TerminalStatus.State.serve,TerminalStatus.State.serveMachine,given],rfl,
        rfl,rfl,LockOrder.setLock_lockOf p cache key lock⟩
    | _ => cases is
  | unlockSession sessionId =>
    cases is
    simp only [LockOrder.lockOf] at given
    exact ⟨p.setSessionLock sessionId lock,.ok (),by simp [TerminalStatus.State.serve,given],rfl,rfl,rfl,
      LockOrder.setSessionLock_lockOf p sessionId lock⟩
  | _ => cases is

private theorem shared_lockOf (s : State) : LockOrder.lockOf s.shared = s.lockOf := by
  funext key
  cases key <;> rfl

private theorem shared_eq {p : TerminalStatus.State} (tables : p.tables = s.tables) (looks : p.looks = s.looks)
    (locks : LockOrder.lockOf p = s.lockOf) : p = s.shared := by
  obtain ⟨t,l,sl,ls⟩ := p
  cases tables
  cases looks
  have machines : l = fun cache key => s.lockOf (.machine cache key) :=
    funext fun cache => funext fun key => congrFun locks (.machine cache key)
  have sessions : sl = fun sessionId => s.lockOf (.session sessionId) :=
    funext fun sessionId => congrFun locks (.session sessionId)
  rw [machines,sessions]
  rfl

private theorem key_ext {key other : Key} (cache : cacheOf key = cacheOf other) (text : textOf key = textOf other) : key = other := by
  cases key with
  | machine _ _ =>
    cases other with
    | machine _ _ =>
      cases cache
      cases text
      rfl
    | session _ => cases cache
  | session _ =>
    cases other with
    | machine _ _ => cases cache
    | session _ =>
      cases text
      rfl

namespace State

private theorem setLocks_caches (s : State) (cache other : Cache) (locks : LockUtils.State ℕ String) :
    (s.setLocks cache locks).caches other = if other = cache then locks else s.caches other :=
  Function.update_apply s.caches cache locks other

private theorem setLocks_calm {cache : Cache} {locks : LockUtils.State ℕ String} (all : ∀ cache, Calm (s.caches cache))
    (calm : Calm locks) (other : Cache) : Calm ((s.setLocks cache locks).caches other) := by
  rw [setLocks_caches]
  split
  · exact calm
  · exact all other

private theorem setLocks_pc {cache : Cache} {locks : LockUtils.State ℕ String} {u : ℕ}
    (same : locks.pc u = (s.caches cache).pc u) (other : Cache) :
    ((s.setLocks cache locks).caches other).pc u = (s.caches other).pc u := by
  rw [setLocks_caches]
  split
  · rename_i here
    rw [here,same]
  · rfl

private theorem drop_pc (s : State) (key : Key) (cache : Cache) (u : ℕ) :
    ((s.setLocks (cacheOf key) ((s.caches (cacheOf key)).drop (textOf key))).caches cache).pc u = (s.caches cache).pc u := by
  apply setLocks_pc
  rfl

private theorem setLocks_lockOf (s : State) (cache : Cache) (locks : LockUtils.State ℕ String) (key : Key) :
    (s.setLocks cache locks).lockOf key = if cacheOf key = cache then locks.lockOf (textOf key) else s.lockOf key := by
  rw [lockOf,setLocks_caches]
  split
  · rfl
  · rfl

end State

private theorem run_eq {locks : LockUtils.State ℕ String} {cache : Cache} (same : locks.lockOf = (s.caches cache).lockOf) :
    (s.setLocks cache locks).run = s.run := by
  have locks_eq : (s.setLocks cache locks).lockOf = s.lockOf := by
    funext key
    rw [State.setLocks_lockOf]
    split
    · rename_i here
      rw [same,← here]
      rfl
    · rfl
  exact congrArg (fun shared => (⟨shared,s.calls⟩ : Run)) (shared_eq (s := s) rfl rfl ((shared_lockOf _).trans locks_eq))

private theorem lockOf_moved {locks : LockUtils.State ℕ String} {lock : ReentrantLock ℕ}
    (moved : locks.lockOf = Function.update (s.caches (cacheOf key)).lockOf (textOf key) lock) :
    (s.setLocks (cacheOf key) locks).lockOf =
      Function.update s.lockOf key lock := by
  funext other
  rw [State.setLocks_lockOf,moved]
  by_cases same : other = key
  · subst same
    simp
  · rw [Function.update_of_ne same]
    split
    · rename_i here
      rw [Function.update_of_ne fun text => same (key_ext here text),← here]
      rfl
    · rfl

private theorem locking_not_unlocking {pc : Pc String} {k k' : String} (locks : pc.locking k) : ¬ pc.unlocking k' := by
  cases pc <;> simp_all [Pc.locking,Pc.unlocking]

namespace Sound

private theorem of (sound : Sound info s) (id : ℕ) (calm : ∀ cache, Calm (s'.caches cache))
    (reached : (LockOrder.system info).Reachable s'.run) (came : s.came ⊆ s'.came) (mine : id ∈ s'.came)
    (others : ∀ u, u ≠ id → s'.calls u = s.calls u ∧ ∀ cache, (s'.caches cache).pc u = (s.caches cache).pc u)
    (own : ∀ cache, (s'.caches cache).pc id ≠ .idle → ∃ request c next act rest,
      s'.calls id = some (request,.call c next) ∧ lockCall c next = some (act,rest) ∧ cacheOf (keyOf act) = cache ∧
        Under act ((s'.caches cache).pc id)) : Sound info s' := by
  refine ⟨calm,fun u cache busy => ?_,fun u called => ?_,reached⟩
  · by_cases same : u = id
    · subst same
      exact own cache busy
    · obtain ⟨calls,pc⟩ := others u same
      rw [pc] at busy ⊢
      rw [calls]
      exact sound.calling u cache busy
  · by_cases same : u = id
    · exact same ▸ mine
    · exact came (sound.came u ((others u same).1 ▸ called))

private theorem elsewhere (sound : Sound info s) (calling : s.calls id = some (request,.call c next)) {cache : Cache}
    (other : ∀ act rest, lockCall c next = some (act,rest) → cacheOf (keyOf act) ≠ cache) : (s.caches cache).pc id = .idle := by
  by_contra busy
  obtain ⟨request',c',next',act,rest,calls,is,here,-⟩ := sound.calling id cache busy
  cases calling.symm.trans calls
  exact other act rest is here

private theorem mem_came (sound : Sound info s) (calling : s.calls id = some (request,.call c next)) : id ∈ s.came :=
  sound.came id (by simp [calling])

private theorem owns (sound : Sound info s) (calling : s.calls id = some (request,.call c next))
    (is : lockCall c next = some (.release key,rest)) : (s.lockOf key).owner = some id := by
  obtain ⟨held,locked⟩ := LockOrder.locked info sound.reached
  have own := locked.releases calling (lockCall_act is)
  rwa [State.run,shared_lockOf] at own

private theorem invoke (sound : Sound info s) (idle : s.calls id = none) :
    Sound info { s.goOn id request (request.program info) with came := id :: s.came } ∧
      (LockOrder.system info).step s.run (.invoke id request) =
        some { s.goOn id request (request.program info) with came := id :: s.came }.run := by
  have seen : (LockOrder.system info).step s.run (.invoke id request) =
      some { s.goOn id request (request.program info) with came := id :: s.came }.run := by
    simp only [LockOrder.system,Pool.system,State.run,idle]
    rfl
  refine ⟨sound.of id sound.calm (sound.reached.extend (.single seen)) (List.subset_cons_self _ _) (List.mem_cons_self ..)
    (fun u other => ⟨Function.update_of_ne other _ _,fun _ => rfl⟩) (fun cache busy => ?_),seen⟩
  obtain ⟨_,_,_,_,_,calls,-⟩ := sound.calling id cache busy
  cases idle.symm.trans calls

private theorem serves (sound : Sound info s) (calling : s.calls id = some (request,.call c next))
    (other : lockCall c next = none) {p : TerminalStatus.State} {answer : Except Failure (Answer c)}
    (served : TerminalStatus.State.serve id s.shared c world = some (p,answer)) :
    Sound info { s.goOn id request (next answer) with tables := p.tables, looks := p.looks } ∧
      (LockOrder.system info).step s.run (.step id world) =
        some { s.goOn id request (next answer) with tables := p.tables, looks := p.looks }.run := by
  obtain ⟨q,answer',served',locks⟩ := LockOrder.locks_serve.other (lockCall_none.mp other) id s.shared world
  cases served.symm.trans served'
  have is : p = { s.goOn id request (next answer) with tables := p.tables, looks := p.looks }.shared :=
    shared_eq rfl rfl (locks.trans (shared_lockOf s))
  have seen : (LockOrder.system info).step s.run (.step id world) =
      some { s.goOn id request (next answer) with tables := p.tables, looks := p.looks }.run := by
    simp only [LockOrder.system,Pool.system,State.run,calling,served,← is]
    rfl
  refine ⟨sound.of id sound.calm (sound.reached.extend (.single seen)) (List.Subset.refl _) (sound.mem_came calling)
    (fun u other => ⟨Function.update_of_ne other _ _,fun _ => rfl⟩) (fun cache busy => ?_),seen⟩
  exact absurd (sound.elsewhere calling fun act rest is => by simp [other] at is) busy

private theorem unseen (sound : Sound info s) (calling : s.calls id = some (request,.call c next))
    (is : lockCall c next = some (act,rest)) {locks : LockUtils.State ℕ String} (calm : Calm locks)
    (same : locks.lockOf = (s.caches (cacheOf (keyOf act))).lockOf)
    (others : ∀ u, u ≠ id → locks.pc u = (s.caches (cacheOf (keyOf act))).pc u) (under : Under act (locks.pc id)) :
    Sound info (s.setLocks (cacheOf (keyOf act)) locks) := by
  refine sound.of id (State.setLocks_calm sound.calm calm) (run_eq same ▸ sound.reached) (List.Subset.refl _)
    (sound.mem_came calling) (fun u other => ⟨rfl,State.setLocks_pc (others u other)⟩) (fun cache busy => ?_)
  by_cases here : cache = cacheOf (keyOf act)
  · subst here
    refine ⟨request,c,next,act,rest,calling,is,rfl,?_⟩
    rwa [State.setLocks_caches,if_pos rfl]
  · rw [State.setLocks_caches,if_neg here] at busy
    refine absurd (sound.elsewhere calling fun act' rest' is' => ?_) busy
    cases is.symm.trans is'
    exact Ne.symm here

private theorem seen (sound : Sound info s) (calling : s.calls id = some (request,.call c next))
    (is : lockCall c next = some (act,rest)) {locks : LockUtils.State ℕ String} {lock : ReentrantLock ℕ} (calm : Calm locks)
    (moved : locks.lockOf = Function.update (s.caches (cacheOf (keyOf act))).lockOf (textOf (keyOf act)) lock)
    (others : ∀ u, u ≠ id → locks.pc u = (s.caches (cacheOf (keyOf act))).pc u) (idle : locks.pc id = .idle)
    (served : ∃ q answer, TerminalStatus.State.serve id s.shared c world = some (q,answer) ∧ next answer = rest (.ok ()) ∧
      q.tables = s.shared.tables ∧ q.looks = s.shared.looks ∧
        LockOrder.lockOf q = Function.update (LockOrder.lockOf s.shared) (keyOf act) lock) :
    Sound info ((s.setLocks (cacheOf (keyOf act)) locks).goOn id request (rest (.ok ()))) ∧
      (LockOrder.system info).step s.run (.step id world) =
        some ((s.setLocks (cacheOf (keyOf act)) locks).goOn id request (rest (.ok ()))).run := by
  obtain ⟨q,answer,served,goes,tables,looks,lockOf⟩ := served
  have q_eq : q = (s.setLocks (cacheOf (keyOf act)) locks).shared := by
    refine shared_eq tables looks ?_
    rw [lockOf,shared_lockOf,lockOf_moved moved]
  have seen : (LockOrder.system info).step s.run (.step id world) =
      some ((s.setLocks (cacheOf (keyOf act)) locks).goOn id request (rest (.ok ()))).run := by
    simp only [LockOrder.system,Pool.system,State.run,calling,served,q_eq,goes]
    rfl
  refine ⟨sound.of id (State.setLocks_calm sound.calm calm) (sound.reached.extend (.single seen)) (List.Subset.refl _)
    (sound.mem_came calling) (fun u other => ⟨Function.update_of_ne other _ _,State.setLocks_pc (others u other)⟩)
    (fun cache busy => ?_),seen⟩
  by_cases here : cache = cacheOf (keyOf act)
  · subst here
    refine absurd idle ?_
    rwa [State.goOn,State.setLocks_caches,if_pos rfl] at busy
  · rw [State.goOn,State.setLocks_caches,if_neg here] at busy
    refine absurd (sound.elsewhere calling fun act' rest' is' => ?_) busy
    cases is.symm.trans is'
    exact Ne.symm here

private theorem dropped (sound : Sound info s) (spared : ∀ id, ¬ Busy (s.caches (cacheOf key)) id (textOf key)) :
    Sound info (s.setLocks (cacheOf key) ((s.caches (cacheOf key)).drop (textOf key))) ∧
      (s.setLocks (cacheOf key) ((s.caches (cacheOf key)).drop (textOf key))).run = s.run := by
  obtain ⟨calm,same⟩ := (sound.calm (cacheOf key)).drop spared
  refine ⟨⟨State.setLocks_calm sound.calm calm,fun id cache busy => ?_,sound.came,run_eq same ▸ sound.reached⟩,run_eq same⟩
  rw [State.drop_pc] at busy ⊢
  exact sound.calling id cache busy

private theorem busy_came (sound : Sound info s) (busy : Busy (s.caches (cacheOf key)) id (textOf key)) : id ∈ s.came := by
  refine sound.came id ?_
  obtain ⟨⟨text,lock⟩,member,is⟩ | going := busy
  · cases is
    have owner : (s.lockOf key).owner = some id := (sound.calm (cacheOf key)).held_owner member
    obtain ⟨held,locked⟩ := LockOrder.locked info sound.reached
    rw [← shared_lockOf] at owner
    obtain ⟨request,c,next,calling,-⟩ := locked.unfinished owner
    have calls : s.calls id = some (request,.call c next) := calling
    simp [calls]
  · obtain ⟨request,c,next,act,rest,calls,-⟩ := sound.calling id (cacheOf key) fun idle => by simp [idle,Pc.key] at going
    simp [calls]

end Sound

/-- The steps that the calls of `LockUtils` can still take, the next one of each request included. -/
def left (s : State) : ℕ := ∑ id ∈ s.came.toFinset, ∑ cache, ((s.caches cache).pc id).left

def size (s : State) : ℕ := ∑ cache, (s.caches cache).size

def Less (s' s : State) : Prop := toLex (left s',size s') < toLex (left s,size s)

private theorem less_wf : WellFounded Less := InvImage.wf (fun s => toLex (left s,size s)) wellFounded_lt

private theorem less_of_pc {locks : LockUtils.State ℕ String} {cache : Cache} (mem : id ∈ s.came)
    (others : ∀ u, u ≠ id → locks.pc u = (s.caches cache).pc u)
    (lower : (locks.pc id).left < ((s.caches cache).pc id).left) : Less (s.setLocks cache locks) s := by
  have here : ((s.setLocks cache locks).caches cache).pc id = locks.pc id := by
    rw [State.setLocks_caches,if_pos rfl]
  have each (u : ℕ) (other : Cache) :
      (((s.setLocks cache locks).caches other).pc u).left ≤ ((s.caches other).pc u).left := by
    by_cases same : u = id
    · subst same
      rw [State.setLocks_caches]
      split
      · rename_i is
        exact is ▸ lower.le
      · exact le_rfl
    · rw [State.setLocks_pc (others u same)]
  refine Prod.Lex.toLex_lt_toLex.mpr (.inl ?_)
  refine Finset.sum_lt_sum (fun u _ => Finset.sum_le_sum fun other _ => each u other) ⟨id,List.mem_toFinset.mpr mem,?_⟩
  exact Finset.sum_lt_sum (fun other _ => each id other) ⟨cache,Finset.mem_univ _,by rwa [here]⟩

private theorem less_of_drop (sound : Sound info s)
    (there : ((s.caches (cacheOf key)).entries (textOf key)).isSome) :
    Less (s.setLocks (cacheOf key) ((s.caches (cacheOf key)).drop (textOf key))) s := by
  have less := (sound.calm (cacheOf key)).drop_size there
  have same : left (s.setLocks (cacheOf key) ((s.caches (cacheOf key)).drop (textOf key))) = left s := by
    refine Finset.sum_congr rfl fun id _ => Finset.sum_congr rfl fun cache _ => ?_
    rw [State.drop_pc]
  refine Prod.Lex.toLex_lt_toLex.mpr (.inr ⟨same,?_⟩)
  change size _ < size _
  refine Finset.sum_lt_sum (fun cache _ => ?_) ⟨cacheOf key,Finset.mem_univ _,?_⟩
  · rw [State.setLocks_caches]
    split
    · rename_i here
      exact here ▸ less.le
    · exact le_rfl
  · rwa [State.setLocks_caches,if_pos rfl]

namespace Sound

private theorem unlocks (sound : Sound info s) (calling : s.calls id = some (request,.call c next))
    (is : lockCall c next = some (act,rest)) (under : Under act ((s.caches (cacheOf (keyOf act))).pc id)) (text : String)
    (unlocking : ((s.caches (cacheOf (keyOf act))).pc id).unlocking text) :
    ((s.caches (cacheOf (keyOf act))).lockOf text).owner = some id := by
  cases act with
  | acquire key => exact absurd unlocking (locking_not_unlocking under)
  | release key =>
    have same := (Pc.unlocking_key under).symm.trans (Pc.unlocking_key unlocking)
    cases same
    exact sound.owns calling is

private theorem begins (sound : Sound info s) (calling : s.calls id = some (request,.call c next))
    (is : lockCall c next = some (act,rest)) {locks : LockUtils.State ℕ String} {pc : Pc String}
    (pc_of : pc = .check (textOf (keyOf act)) ∨ pc = .find (textOf (keyOf act)))
    (under : Under act pc) (stepped : (s.caches (cacheOf (keyOf act))).call id pc = some locks) :
    Sound info (s.setLocks (cacheOf (keyOf act)) locks) ∧
      (s.setLocks (cacheOf (keyOf act)) locks).run = s.run ∧
        Less (s.setLocks (cacheOf (keyOf act)) locks) s := by
  have others (u : ℕ) (other : u ≠ id) := (call_others other stepped).1
  obtain ⟨calm,idle,at_,same⟩ : Calm locks ∧ (s.caches (cacheOf (keyOf act))).pc id = .idle ∧ locks.pc id = pc ∧
      locks.lockOf = (s.caches (cacheOf (keyOf act))).lockOf := by
    obtain rfl | rfl := pc_of
    · exact (sound.calm _).lock stepped
    · exact (sound.calm _).unLock stepped
  refine ⟨sound.unseen calling is calm same others (at_ ▸ under),run_eq same,less_of_pc (sound.mem_came calling) others ?_⟩
  rw [at_,idle]
  obtain rfl | rfl := pc_of <;> simp [Pc.left]

private theorem inLock (sound : Sound info s) (world : World) (calling : s.calls id = some (request,.call c next))
    (is : lockCall c next = some (act,rest)) (stepped : s.inLock id request act rest = some s') :
    Sound info s' ∧ ((LockOrder.system info).step s.run (.step id world) = some s'.run ∨ s'.run = s.run ∧ Less s' s) := by
  simp only [State.inLock] at stepped
  split at stepped
  case isTrue idle =>
    obtain ⟨locks,begun,rfl⟩ := Option.map_eq_some_iff.mp stepped
    cases act with
    | acquire key =>
      obtain ⟨sound',same,less⟩ := sound.begins calling is (.inl rfl) rfl begun
      exact ⟨sound',.inr ⟨same,less⟩⟩
    | release key =>
      obtain ⟨sound',same,less⟩ := sound.begins calling is (.inr rfl) rfl begun
      exact ⟨sound',.inr ⟨same,less⟩⟩
  case isFalse busy =>
    obtain ⟨t,going,rfl⟩ := Option.map_eq_some_iff.mp stepped
    obtain ⟨locks,advanced,rfl⟩ := Option.map_eq_some_iff.mp going
    have under : Under act ((s.caches (cacheOf (keyOf act))).pc id) := by
      obtain ⟨_,_,_,act',_,calls,is',-,under⟩ := sound.calling id _ busy
      cases calling.symm.trans calls
      cases is.symm.trans is'
      exact under
    have others (u : ℕ) (other : u ≠ id) := (advance_others other advanced).1
    obtain ⟨calm,outcome⟩ := (sound.calm _).goes (sound.unlocks calling is under) advanced
    have now : (s.setLocks (cacheOf (keyOf act)) locks).caches (cacheOf (keyOf act)) = locks := by
      rw [State.setLocks_caches,if_pos rfl]
    rw [now]
    cases outcome with
    | goes going lower same locking unlocking =>
      rw [if_neg going]
      refine ⟨sound.unseen calling is calm same others ?_,.inr ⟨run_eq same,less_of_pc (sound.mem_came calling) others lower⟩⟩
      cases act with
      | acquire key => exact locking _ under
      | release key => exact unlocking _ under
    | takes text lock locking idle taken moved =>
      rw [if_pos idle,calm.quiet id]
      cases act with
      | release key => exact absurd under (locking_not_unlocking locking)
      | acquire key =>
        cases (Pc.locking_key locking).symm.trans (Pc.locking_key under)
        have free : (LockOrder.lockOf s.shared key).lock id = some lock := by rwa [shared_lockOf]
        have served := serve_acquire id world is s.shared free
        obtain ⟨sound',seen⟩ := sound.seen calling is calm moved others idle served
        exact ⟨sound',.inl seen⟩
    | gives text lock unlocking idle given moved =>
      rw [if_pos idle,calm.quiet id]
      cases act with
      | acquire key => exact absurd unlocking (locking_not_unlocking under)
      | release key =>
        cases (Pc.unlocking_key unlocking).symm.trans (Pc.unlocking_key under)
        have owned : (LockOrder.lockOf s.shared key).unlock id = some lock := by rwa [shared_lockOf]
        have served := serve_release id world is s.shared owned
        obtain ⟨sound',seen⟩ := sound.seen calling is calm moved others idle served
        exact ⟨sound',.inl seen⟩

private theorem drop (sound : Sound info s) {act : LockUtils.Act ℕ String}
    (is : act = .evict (textOf key) ∨ act = .expire (textOf key))
    (spared : (s.came.all fun id => ¬ Busy (s.caches (cacheOf key)) id (textOf key)) = true)
    (stepped : s.drop key act = some s') : Sound info s' ∧ s'.run = s.run ∧ Less s' s := by
  unfold State.drop at stepped
  split at stepped
  case isFalse => cases stepped
  case isTrue there =>
    obtain ⟨locks,dropped,rfl⟩ := Option.map_eq_some_iff.mp stepped
    obtain rfl : locks = (s.caches (cacheOf key)).drop (textOf key) := by
      obtain rfl | rfl := is
      · simp only [LockUtils.system,Option.ite_none_right_eq_some,Option.some.injEq] at dropped
        exact dropped.2.symm
      · exact (Option.some.inj dropped).symm
    have unused (id : ℕ) : ¬ Busy (s.caches (cacheOf key)) id (textOf key) := fun busy =>
      of_decide_eq_true (List.all_eq_true.mp spared id (sound.busy_came busy)) busy
    obtain ⟨sound',same⟩ := sound.dropped unused
    exact ⟨sound',same,less_of_drop sound there⟩

theorem step (sound : Sound info s) {a : Act} (spared : spares s a = true) (stepped : (system info).step s a = some s') :
    Sound info s' ∧ ((∃ b, (LockOrder.system info).step s.run b = some s'.run ∧
      (serving s a = true → Pool.serving s.run b = true)) ∨ s'.run = s.run ∧ Less s' s) := by
  cases a with
  | invoke id request =>
    simp only [system] at stepped
    split at stepped
    case h_2 => cases stepped
    case h_1 idle =>
      cases stepped
      obtain ⟨sound',seen⟩ := sound.invoke idle
      exact ⟨sound',.inl ⟨_,seen,fun serves => by cases serves⟩⟩
  | step id world =>
    simp only [system,State.advance] at stepped
    split at stepped
    case h_2 => cases stepped
    case h_1 request c next calling =>
      split at stepped
      case h_1 act rest is =>
        obtain ⟨sound',seen | unseen⟩ := sound.inLock world calling is stepped
        · exact ⟨sound',.inl ⟨_,seen,fun _ => rfl⟩⟩
        · exact ⟨sound',.inr unseen⟩
      case h_2 other =>
        obtain ⟨⟨p,answer⟩,served,rfl⟩ := Option.map_eq_some_iff.mp stepped
        obtain ⟨sound',seen⟩ := sound.serves calling other served
        exact ⟨sound',.inl ⟨_,seen,fun _ => rfl⟩⟩
  | evict key =>
    obtain ⟨sound',same⟩ := sound.drop (.inl rfl) spared stepped
    exact ⟨sound',.inr same⟩
  | expire key =>
    obtain ⟨sound',same⟩ := sound.drop (.inr rfl) spared stepped
    exact ⟨sound',.inr same⟩

private theorem init (tables : Tables) : Sound info (.init tables) where
  calm _ := .init
  calling _ _ busy := absurd rfl busy
  came _ called := absurd rfl called
  reached := by
    refine .start ⟨⟨tables,?_⟩,fun _ => rfl⟩
    have new : LockOrder.lockOf (TerminalStatus.State.init tables) = (State.init tables).lockOf := by
      funext key
      cases key <;> rfl
    exact (shared_eq rfl rfl new).symm

theorem reachable (reached : ((system info).restrict spares).Reachable s) : Sound info s := by
  apply reached.invariant
  · rintro _ ⟨tables,rfl⟩
    exact .init tables
  · intro s a s' sound stepped
    obtain ⟨spared,stepped⟩ := (System.restrict_step_iff _ _ _ _ _).mp stepped
    exact (sound.step spared stepped).1

private theorem owner_key (sound : Sound info s) {cache : Cache} {lock : ℕ}
    (owner : ((s.caches cache).locks lock).owner = some id) : ∃ key, (LockOrder.lockOf s.run.shared key).owner = some id := by
  obtain ⟨text,own⟩ := (sound.calm cache).owner_lockOf owner
  obtain ⟨key,rfl,rfl⟩ : ∃ key, cacheOf key = cache ∧ textOf key = text := by
    cases cache with
    | machine cache => exact ⟨.machine cache text,rfl,rfl⟩
    | session => exact ⟨.session text,rfl,rfl⟩
  exact ⟨key,by rwa [State.run,shared_lockOf]⟩

private theorem moves (sound : Sound info s) {world : World} {u : Run}
    (seen : (LockOrder.system info).step s.run (.step id world) = some u) : ∃ id world s', s.advance id world = some s' := by
  simp only [LockOrder.system,Pool.system,State.run] at seen
  split at seen
  case h_2 => cases seen
  case h_1 request c next calling =>
    split at seen
    case h_2 => cases seen
    case h_1 p answer served =>
      cases is : lockCall c next with
      | none =>
        refine ⟨id,world,Option.isSome_iff_exists.mp ?_⟩
        simp only [State.advance,calling,is]
        rw [served]
        rfl
      | some pair =>
        obtain ⟨act,rest⟩ := pair
        by_cases idle : (s.caches (cacheOf (keyOf act))).pc id = .idle
        · refine ⟨id,world,Option.isSome_iff_exists.mp ?_⟩
          simp only [State.advance,calling,is,State.inLock,if_pos idle,State.lockStep,Option.isSome_map]
          cases act <;> simp [LockUtils.system,LockUtils.State.call,idle]
        · have free (text : String) (locking : ((s.caches (cacheOf (keyOf act))).pc id).locking text) :
              (((s.caches (cacheOf (keyOf act))).lockOf text).lock id).isSome := by
            obtain ⟨_,_,_,act',_,calls,is',-,under⟩ := sound.calling id _ idle
            cases calling.symm.trans calls
            cases is.symm.trans is'
            cases act with
            | release key => exact absurd under (locking_not_unlocking locking)
            | acquire key =>
              cases (Pc.locking_key locking).symm.trans (Pc.locking_key under)
              refine Option.isSome_iff_ne_none.mpr fun taken => ?_
              have waits : (LockOrder.lockOf s.shared key).lock id = none := by rwa [shared_lockOf]
              cases served.symm.trans ((LockOrder.locks_serve.acquire (lockCall_act is) id s.shared world).2 waits)
          obtain ⟨v,busy,advances⟩ := (sound.calm _).moves idle free
          obtain ⟨request',c',next',act',rest',calls,is',here,-⟩ := sound.calling v _ busy
          refine ⟨v,world,Option.isSome_iff_exists.mp ?_⟩
          rw [← here] at busy advances
          simp only [State.advance,calls,is',State.inLock,if_neg busy,State.lockStep,Option.isSome_map]
          exact advances

end Sound

/-- As long as the caches drop no entry of a key that a request is taking, has or is giving back, no call
of `lock` or `unLock` throws, whoever owns a lock has come in and has not ended, and whoever is about
to give one back finds in the cache the one that it owns. -/
theorem locks_returned (info : MetaInfo) {s : State} (reached : ((system info).restrict spares).Reachable s) :
    (∀ cache id, (s.caches cache).thrown id = none) ∧
    (∀ cache lock id, ((s.caches cache).locks lock).owner = some id → ∃ request c next, s.calls id = some (request,.call c next)) ∧
    ∀ id request c next key, s.calls id = some (request,.call c next) → callAct c = some (.release key) →
      ∃ lock, (s.caches (cacheOf key)).entries (textOf key) = some lock ∧
        ((s.caches (cacheOf key)).locks lock).owner = some id := by
  have sound := Sound.reachable reached
  obtain ⟨held,locked⟩ := LockOrder.locked info sound.reached
  refine ⟨fun cache => (sound.calm cache).quiet,fun cache lock id owner => ?_,fun id request c next key calling is => ?_⟩
  · obtain ⟨key,own⟩ := sound.owner_key owner
    obtain ⟨request,c,next,calling,-⟩ := locked.unfinished own
    exact ⟨request,c,next,calling⟩
  · have own := locked.releases calling is
    rw [State.run,shared_lockOf] at own
    obtain ⟨lock,there,-,owner⟩ := (sound.calm (cacheOf key)).holds own
    exact ⟨lock,there,owner⟩

/-- The entry of the job expires after one kill of it; a dispatch waits for the lock that the next one
has made. -/
def busy : List Act :=
  .invoke 0 (.session (.killJob {} "job" "API")) :: List.replicate 30 (.step 0 {}) ++
    .expire (.session "job") :: .invoke 1 (.session (.killJob {} "job" "API")) :: List.replicate 8 (.step 1 {}) ++
    .invoke 2 (.session (.dispatch "job" "DeepSpeed")) :: List.replicate 3 (.step 2 {})

private theorem busy_reached : ∃ s, ((system ⟨false,1⟩).restrict spares).Reachable s ∧
    ((s.caches .session).locks 1).owner = some 1 ∧ ((system ⟨false,1⟩).step s (.step 2 {})).isNone := by
  have ran : (((system ⟨false,1⟩).restrict spares).exec (.init (TerminalStatus.tablesWith "WAITING_RESOURCE" [])) busy).any
      (fun s => decide (((s.caches .session).locks 1).owner = some 1 ∧ ((system ⟨false,1⟩).step s (.step 2 {})).isNone)) = true := by
    decide +kernel
  obtain ⟨s,run,found⟩ := (Option.any_eq_true _ _).mp ran
  exact ⟨s,⟨_,_,⟨_,rfl⟩,run⟩,of_decide_eq_true found⟩

theorem locks_returned_busy : ∃ s : State, ((s.caches .session).locks 1).owner = some 1 ∧
    (∀ cache id, (s.caches cache).thrown id = none) ∧ ∃ request c next, s.calls 1 = some (request,.call c next) := by
  obtain ⟨s,reached,own,-⟩ := busy_reached
  obtain ⟨quiet,owners,-⟩ := locks_returned ⟨false,1⟩ reached
  exact ⟨s,own,quiet,owners .session 1 1 own⟩

/-- However the caches and the calls of the requests that have come in go on, and whichever of these
fail, all requests end, and then no lock is owned: nobody waits in a circle. -/
theorem requests_end (info : MetaInfo) {s : State} (reached : ((system info).restrict spares).Reachable s) :
    ((system info).restrict serving).Inevitable
      (fun q => q.run.Quiet ∧ ∀ cache lock, ((q.caches cache).locks lock).owner = none) s := by
  have sound := Sound.reachable reached
  have spared {q : State} {a : Act} (serves : serving q a = true) : spares q a = true := by
    cases a with
    | invoke => cases serves
    | _ => exact serves
  refine System.Inevitable.refines (P := Sound info) less_wf (fun q a t kept stepped => ?_) (fun q a t kept stepped => ?_)
    (fun q kept seen => ?_) (fun q kept ends => ?_) (LockOrder.all_end info sound.reached) rfl sound
  · obtain ⟨serves,stepped⟩ := (System.restrict_step_iff _ _ _ _ _).mp stepped
    exact (kept.step (spared serves) stepped).1
  · obtain ⟨serves,stepped⟩ := (System.restrict_step_iff _ _ _ _ _).mp stepped
    refine (kept.step (spared serves) stepped).2.imp ?_ id
    rintro ⟨b,seen,allowed⟩
    exact ⟨b,(System.restrict_step_iff _ _ _ _ _).mpr ⟨allowed serves,seen⟩⟩
  · obtain ⟨b,u,seen⟩ := seen
    obtain ⟨serves,seen⟩ := (System.restrict_step_iff _ _ _ _ _).mp seen
    cases b with
    | invoke => cases serves
    | step id world =>
      obtain ⟨id,world,t,goes⟩ := kept.moves seen
      exact ⟨.step id world,t,(System.restrict_step_iff _ _ _ _ _).mpr ⟨rfl,goes⟩⟩
  · obtain ⟨quiet,free⟩ := ends
    refine ⟨quiet,fun cache lock => Option.eq_none_iff_forall_ne_some.mpr fun id owner => ?_⟩
    obtain ⟨key,own⟩ := kept.owner_key owner
    cases (free key).symm.trans own

theorem requests_end_busy : ∃ s : State, ((system ⟨false,1⟩).step s (.step 2 {})).isNone ∧
    ((system ⟨false,1⟩).restrict serving).Inevitable
      (fun q => q.run.Quiet ∧ ∀ cache lock, ((q.caches cache).locks lock).owner = none) s := by
  obtain ⟨s,reached,-,waits⟩ := busy_reached
  exact ⟨s,waits,requests_end ⟨false,1⟩ reached⟩

end Eggroll.Cluster.LockCaches
