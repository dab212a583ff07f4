import Eggroll.Library.Program
import Eggroll.LockUtils
import Eggroll.NodeResources

/-! Heartbeats of nodes (`ClusterManagerService.nodeHeartbeat`): each is handled under the lock of
the id that the node has when it comes in. What the database answers is up to the environment. -/
namespace Eggroll.NodeHeartbeat
open Library
open Program hiding call

structure ErEndpoint where
  host : String
  port : Int
deriving Repr, DecidableEq

structure ErServerNode where
  id : Int
  name : String
  clusterId : Int
  endpoint : ErEndpoint
  nodeType : String
  status : String
  resources : List NodeResources.ErResource
deriving Repr, DecidableEq

structure ErNodeHeartbeat where
  id : Int
  node : ErServerNode
deriving Repr, DecidableEq

/-- The columns of a `ServerNode` that a call gives. -/
structure ServerNode where
  serverNodeId : Option Int := none
  name : Option String := none
  serverClusterId : Option Int := none
  host : String
  port : Int
  nodeType : Option String := none
  status : Option String := none
deriving Repr, DecidableEq

/-- The calls of a heartbeat: on its own node object, on `nodeHeartbeatMap`, on the cache of
nodes and on the database. -/
inductive Op
  | getId
  | setId (id : Int)
  | containsKey (id : Int)
  | get (id : Int)
  | put (id heartbeat : Int)
  | getFromCache (id : Int)
  | list (row : ServerNode)
  | save (row : ServerNode)
  | updateById (row : ServerNode)
  | listResources (serverNodeId : Int)
  | registerResource (serverNodeId : Int) (resources : List NodeResources.ErResource)
deriving Repr, DecidableEq

/-- A list of nodes is answered by their ids, and a row that is saved by the id that it gets. -/
abbrev Ans : Op → Type
  | .getId | .save _ => Int
  | .containsKey _ | .getFromCache _ => Bool
  | .get _ => Option Int
  | .list _ => List Int
  | _ => Unit

inductive Failure
  | sql
  | nullPointer
deriving Repr, DecidableEq

abbrev Change (α : Type) := Program Op Ans Failure α

def call (op : Op) : Change (Ans op) := perform op

def getByEndPoint (input : ErEndpoint) : Change (Option Int) := do
  let nodeList ← call (.list { host := input.host, port := input.port })
  pure nodeList.head?

def createByErNode (input : ErServerNode) : Change Int := do
  let id ← call .getId
  call (.save {
    serverNodeId := if 0 < id then some id else none
    name := some input.name
    serverClusterId := some input.clusterId
    host := input.endpoint.host
    port := input.endpoint.port
    nodeType := some input.nodeType
    status := some input.status })

def updateByErNode (input : ErServerNode) : Change Unit := do
  let id ← call .getId
  call (.updateById {
    serverNodeId := some id
    name := some input.name
    host := input.endpoint.host
    port := input.endpoint.port
    status := some input.status })

def getByIdFromCache (serverNodeId : Int) : Change Bool :=
  (call (.getFromCache serverNodeId)).andThen fun
    | .ok known => pure known
    | .error _ => pure false

def registerResource (data : ErServerNode) : Change Unit := do
  let id ← call .getId
  call (.listResources id)
  call (.registerResource id data.resources)

def updateNode (serverNode : ErServerNode) (needUpdateResource : Bool) : Change Unit := do
  updateByErNode serverNode
  if needUpdateResource then registerResource serverNode

def createNewNode (serverNode : ErServerNode) : Change Unit := do
  let existNode ← createByErNode serverNode
  call (.setId existNode)
  registerResource serverNode

def continues (id heartbeat : Int) : Change Bool := do
  let known ← call (.containsKey id)
  if known then do
    let last ← call (.get id)
    match last with
    | some last => pure (last < heartbeat)
    | none => raise .nullPointer
  else pure false

def changeNode (serverNode : ErServerNode) (heartbeat : Int) : Change Unit := do
  let id ← call .getId
  if serverNode.status ≠ "LOSS" then
    if id = -1 then do
      let existNode ← getByEndPoint serverNode.endpoint
      match existNode with
      | none => do
        let _ ← createByErNode serverNode
        pure ()
      | some serverNodeId => do
        call (.setId serverNodeId)
        updateNode serverNode true
    else do
      let continued ← continues id heartbeat
      if continued then updateNode serverNode false
      else do
        let exists_ ← getByIdFromCache id
        if exists_ then updateNode serverNode true else createNewNode serverNode
  else if id ≠ -1 then updateNode serverNode false
  else pure ()

/-- The body of `try`, between `lock` and `unLock`. -/
def nodeHeartbeat (nodeHeartbeat : ErNodeHeartbeat) : Change Unit := do
  changeNode nodeHeartbeat.node nodeHeartbeat.id
  let id ← call .getId
  call (.put id nodeHeartbeat.id)

/-- What a heartbeat sees: the id of its own node object, and `nodeHeartbeatMap`. -/
structure View where
  id : Int
  heartbeats : Int → Option Int

/-- What a call meets: whether it throws, the nodes that a list finds, the id that a saved row
gets and whether the cache knows a node. -/
structure Env where
  fails : Bool := false
  found : List Int := []
  generated : Int := 0
  known : Bool := false
deriving Repr, DecidableEq

def serve : Service View Op Ans Failure Env := fun s op env =>
  match op with
  | .getId => some (s,.ok s.id)
  | .setId id => some ({ s with id := id },.ok ())
  | .containsKey id => some (s,.ok (s.heartbeats id).isSome)
  | .get id => some (s,.ok (s.heartbeats id))
  | .put id heartbeat => some ({ s with heartbeats := Function.update s.heartbeats id (some heartbeat) },.ok ())
  | .getFromCache _ => some (s,if env.fails then .error .nullPointer else .ok env.known)
  | .list _ => some (s,if env.fails then .error .sql else .ok env.found)
  | .save _ => some (s,if env.fails then .error .sql else .ok env.generated)
  | .updateById _ | .listResources _ | .registerResource _ _ => some (s,if env.fails then .error .sql else .ok ())

section
variable {T : Type} [DecidableEq T]

/-- Where a thread stands: before a heartbeat, in `lock`, in the body or in `unLock`, with the
key that it has given to `lock`. -/
inductive Place
  | idle
  | locking (key : Int) (heartbeat : ErNodeHeartbeat)
  | inside (key : Int) (body : Change Unit)
  | unlocking (key : Int)

def Place.isIdle : Place → Bool
  | .idle => true
  | _ => false

/-- `heartbeatLockCache`, `nodeHeartbeatMap`, and the id of the node object of each thread's
heartbeat. `unlocked` is history: the keys that heartbeats have given to `lock` and to `unLock`. -/
structure State (T : Type) where
  cache : LockUtils.State T Int
  heartbeats : Int → Option Int
  ids : T → Int
  place : T → Place
  unlocked : List (Int × Int)

inductive Act (T : Type)
  | heartbeat (t : T) (nodeHeartbeat : ErNodeHeartbeat)
  | advance (t : T) (env : Env)
  | evict (key : Int)
  | expire (key : Int)
deriving Repr, DecidableEq

namespace State

def init : State T := ⟨.init,fun _ => none,fun _ => 0,fun _ => .idle,[]⟩

def goto (s : State T) (t : T) (place : Place) : State T := { s with place := Function.update s.place t place }

def lockStep (s : State T) (act : LockUtils.Act T Int) : Option (State T) :=
  ((LockUtils.system 100).step s.cache act).map fun cache => { s with cache := cache }

/-- A thread goes on: in `lock` and `unLock` by their own steps, in the body by a call. Whatever
ends the body, `unLock` is given the id that the node has by then. -/
def advance (s : State T) (t : T) (env : Env) : Option (State T) :=
  match s.place t with
  | .idle => none
  | .locking key heartbeat =>
    if s.cache.pc t = .idle then
      some (s.goto t (if s.cache.thrown t = none then .inside key (nodeHeartbeat heartbeat) else .idle))
    else s.lockStep (.advance t)
  | .inside key (.call op next) =>
    (serve ⟨s.ids t,s.heartbeats⟩ op env).map fun served =>
      { s.goto t (.inside key (next served.2)) with
        ids := Function.update s.ids t served.1.id
        heartbeats := served.1.heartbeats }
  | .inside key (.ended _) =>
    (s.lockStep (.unLock t (s.ids t))).map fun s =>
      { s.goto t (.unlocking key) with unlocked := s.unlocked ++ [(key,s.ids t)] }
  | .unlocking _ => if s.cache.pc t = .idle then some (s.goto t .idle) else s.lockStep (.advance t)

end State

def system : System (State T) (Act T) where
  start s := s = .init
  step s
    | .heartbeat t heartbeat =>
      match s.place t with
      | .idle => (s.lockStep (.lock t heartbeat.node.id)).map fun s =>
        { s.goto t (.locking heartbeat.node.id heartbeat) with ids := Function.update s.ids t heartbeat.node.id }
      | _ => none
    | .advance t env => s.advance t env
    | .evict key => s.lockStep (.evict key)
    | .expire key => s.lockStep (.expire key)

/-- Every heartbeat unlocks the key that it has locked, and a lock that is held is held by a
thread that is in a heartbeat. -/
structure Releases (s : State T) : Prop where
  same : ∀ keys ∈ s.unlocked, keys.2 = keys.1
  free : ∀ t lock, (s.cache.locks lock).owner = some t → (s.place t).isIdle = false

/-- What the database answers to a heartbeat leaves the id of its node: no other node is found at
the endpoint of one without an id, and one that is saved under an id keeps it. -/
def keepsId (s : View) (op : Op) (env : Env) : Bool :=
  match op with
  | .list _ => env.found.head? ∈ [none,some s.id]
  | .save _ => s.id = -1 ∨ env.generated = s.id
  | _ => true

/-- The database keeps the ids, and the cache drops no lock that a thread uses. -/
def orderly [Fintype T] (s : State T) : Act T → Bool
  | .heartbeat _ _ => true
  | .advance t env =>
    match s.place t with
    | .inside _ (.call op _) => keepsId ⟨s.ids t,s.heartbeats⟩ op env
    | _ => true
  | .evict key => LockUtils.spares s.cache (.evict key)
  | .expire key => LockUtils.spares s.cache (.expire key)

end

/-- What the body of a heartbeat keeps up and relies on: other heartbeats have other nodes. -/
def contract (key : Int) : Contract View where
  invariant v := v.id = key
  rely v w := w.id = v.id
  guarantee _ _ := True
  refl _ := rfl
  trans first second := second.trans first

abbrev Leads {α : Type} (key : Int) (p : Change α) (A : α → Prop) (v : View) : Prop :=
  Does (contract key) (serve.restrict keepsId) p (fun a _ => A a) (fun _ => True) v

section
variable {key : Int} {v w : View} {op : Op} {env : Env} {serverNode : ErServerNode}

theorem serve_id {answer : Except Failure (Ans op)} (other : ∀ id, op ≠ .setId id)
    (served : serve v op env = some (w,answer)) : w.id = v.id := by
  cases op with
  | setId id => exact absurd rfl (other id)
  | _ =>
    cases served
    rfl

private theorem call_leads (op : Op) {A : Ans op → Prop} (sets : ∀ id, op = .setId id → id = key)
    (answers : ∀ v env w a, v.id = key → keepsId v op env = true → serve v op env = some (w,.ok a) → A a) :
    Leads key (call op) A v := by
  refine Does.perform (P := fun _ => True) (.const _) (fun _ => .const _) (.const _) trivial fun v env w answer inv _ served => ?_
  unfold Service.restrict at served
  split at served
  case isFalse => cases served
  case isTrue kept =>
    refine ⟨?_,trivial,?_⟩
    · by_cases setting : ∃ id, op = .setId id
      · obtain ⟨id,rfl⟩ := setting
        cases served
        exact sets id rfl
      · exact (serve_id (not_exists.mp setting) served).trans inv
    · cases answer with
      | ok a => exact answers v env w a inv kept served
      | error e => trivial

private theorem plain_leads (op : Op) (other : ∀ id, op ≠ .setId id) : Leads key (call op) (fun _ => True) v :=
  call_leads op (fun id is => absurd is (other id)) fun _ _ _ _ _ _ _ => trivial

theorem Leads.bind {α β : Type} {p : Change α} {f : α → Change β} {A : α → Prop} {B : β → Prop}
    (leads : Leads key p A v) (inv : v.id = key) (follows : ∀ a w, w.id = key → A a → Leads key (f a) B w) :
    Leads key (p >>= f) B v :=
  Does.bind leads inv (.const _) follows

theorem Leads.pure {α : Type} {a : α} {A : α → Prop} (holds : A a) : Leads key (Pure.pure a) A v :=
  Does.pure (.const _) holds

private theorem getId_leads : Leads key (call .getId) (· = key) v := by
  refine call_leads .getId nofun fun v env w a inv _ served => ?_
  cases served
  exact inv

private theorem registerResource_leads (inv : v.id = key) : Leads key (registerResource serverNode) (fun _ => True) v := by
  refine getId_leads.bind inv fun id w inv _ => ?_
  exact (plain_leads (.listResources id) nofun).bind inv fun _ w _ _ => plain_leads (.registerResource id _) nofun

private theorem updateNode_leads (needUpdateResource : Bool) (inv : v.id = key) :
    Leads key (updateNode serverNode needUpdateResource) (fun _ => True) v := by
  have updates : Leads key (updateByErNode serverNode) (fun _ => True) v :=
    getId_leads.bind inv fun id w _ _ => plain_leads (.updateById _) nofun
  refine updates.bind inv fun _ w inv _ => ?_
  split
  · exact registerResource_leads inv
  · exact .pure trivial

private theorem createByErNode_leads (inv : v.id = key) :
    Leads key (createByErNode serverNode) (fun id => key ≠ -1 → id = key) v := by
  refine getId_leads.bind inv fun id w inv _ => ?_
  refine call_leads _ nofun fun v env w a inv kept served => fun known => ?_
  cases fails : env.fails with
  | true =>
    simp only [serve,fails,if_true] at served
    cases served
  | false =>
    simp only [serve,fails] at served
    cases served
    rcases of_decide_eq_true kept with new | same
    · exact absurd (inv.symm.trans new) known
    · exact same.trans inv

private theorem getByEndPoint_leads (endpoint : ErEndpoint) (inv : v.id = key) :
    Leads key (getByEndPoint endpoint) (fun existNode => ∀ id, existNode = some id → id = key) v := by
  refine Leads.bind (A := fun found => ∀ id, found.head? = some id → id = key) ?_ inv fun found w _ same => .pure same
  refine call_leads _ nofun fun v env w a inv kept served => fun id is => ?_
  cases fails : env.fails with
  | true =>
    simp only [serve,fails,if_true] at served
    cases served
  | false =>
    simp only [serve,fails] at served
    cases served
    have kept : env.found.head? ∈ [none,some v.id] := of_decide_eq_true kept
    rw [is] at kept
    rcases List.mem_cons.mp kept with none | same
    · cases none
    · exact (Option.some.inj (List.mem_singleton.mp same)).trans inv

private theorem continues_leads (id heartbeat : Int) (inv : v.id = key) : Leads key (continues id heartbeat) (fun _ => True) v := by
  refine (plain_leads (.containsKey id) nofun).bind inv fun known w inv _ => ?_
  cases known with
  | false => exact .pure trivial
  | true =>
    refine (plain_leads (.get id) nofun).bind inv fun last w _ _ => ?_
    cases last with
    | some last => exact .pure trivial
    | none => exact Does.raise (.const _) trivial

private theorem getByIdFromCache_leads (id : Int) (inv : v.id = key) : Leads key (getByIdFromCache id) (fun _ => True) v := by
  refine Sat.andThen (plain_leads (.getFromCache id) nofun) inv fun result w _ _ => ?_
  cases result with
  | ok known => exact Leads.pure trivial
  | error e => exact Leads.pure trivial

private theorem createNewNode_leads (known : key ≠ -1) (inv : v.id = key) :
    Leads key (createNewNode serverNode) (fun _ => True) v := by
  refine (createByErNode_leads inv).bind inv fun existNode w inv same => ?_
  refine Leads.bind (A := fun _ => True) ?_ inv fun _ w inv _ => registerResource_leads inv
  refine call_leads _ (fun id is => ?_) fun _ _ _ _ _ _ _ => trivial
  cases is
  exact same known

private theorem changeNode_leads (heartbeat : Int) (inv : v.id = key) :
    Leads key (changeNode serverNode heartbeat) (fun _ => True) v := by
  refine getId_leads.bind inv fun id w inv is => ?_
  subst is
  by_cases quits : serverNode.status ≠ "LOSS"
  · rw [if_pos quits]
    by_cases new : id = -1
    · rw [if_pos new]
      refine (getByEndPoint_leads _ inv).bind inv fun existNode w inv same => ?_
      cases existNode with
      | none => exact (createByErNode_leads inv).bind inv fun _ _ _ _ => .pure trivial
      | some serverNodeId =>
        refine Leads.bind (A := fun _ => True) ?_ inv fun _ w inv _ => updateNode_leads true inv
        refine call_leads _ (fun id is => ?_) fun _ _ _ _ _ _ _ => trivial
        cases is
        exact same serverNodeId rfl
    · rw [if_neg new]
      refine (continues_leads id heartbeat inv).bind inv fun continued w inv _ => ?_
      cases continued with
      | true => exact updateNode_leads false inv
      | false =>
        refine (getByIdFromCache_leads id inv).bind inv fun known w inv _ => ?_
        cases known with
        | true => exact updateNode_leads true inv
        | false => exact createNewNode_leads new inv
  · rw [if_neg quits]
    split
    · exact updateNode_leads false inv
    · exact .pure trivial

private theorem nodeHeartbeat_leads (heartbeat : ErNodeHeartbeat) (inv : v.id = key) :
    Leads key (nodeHeartbeat heartbeat) (fun _ => True) v := by
  refine (changeNode_leads heartbeat.id inv).bind inv fun _ w inv _ => ?_
  exact getId_leads.bind inv fun _ w _ _ => plain_leads _ nofun

end

section
variable {T : Type} [DecidableEq T] {s s' : State T} {t u : T} {key : Int} {env : Env}

def Standing (s : State T) (t : T) : Place → Prop
  | .idle => s.cache.pc t = .idle ∧ s.cache.held t = []
  | .locking key heartbeat => heartbeat.node.id = key ∧ s.ids t = key ∧
    (((s.cache.pc t).locking key ∧ s.cache.thrown t = none ∧ s.cache.held t = []) ∨
      (s.cache.pc t = .idle ∧ s.cache.thrown t = none ∧ ∃ lock, s.cache.held t = [(key,lock)]) ∨
      (s.cache.pc t = .idle ∧ s.cache.thrown t ≠ none ∧ s.cache.held t = []))
  | .inside key body => s.cache.pc t = .idle ∧ (∃ lock, s.cache.held t = [(key,lock)]) ∧ s.ids t = key ∧
    Leads key body (fun _ => True) ⟨s.ids t,s.heartbeats⟩
  | .unlocking key => (s.cache.pc t = .idle ∧ s.cache.held t = []) ∨
    ∃ lock, s.cache.held t = [(key,lock)] ∧ (s.cache.pc t = .find key ∨ s.cache.pc t = .release key lock)

def Settled (s : State T) (t : T) : Prop := Standing s t (s.place t)

structure Inv (s : State T) : Prop where
  cache : LockUtils.Invariant s.cache
  settled : ∀ t, Settled s t
  same : ∀ keys ∈ s.unlocked, keys.2 = keys.1

omit [DecidableEq T] in
theorem Settled.of {place : Place} (is : s.place t = place) (stands : Standing s t place) : Settled s t := by
  rw [Settled,is]
  exact stands

omit [DecidableEq T] in
theorem Settled.others (settled : Settled s u) (place : s'.place u = s.place u) (ids : s'.ids u = s.ids u)
    (cache : s'.cache.pc u = s.cache.pc u ∧ s'.cache.held u = s.cache.held u ∧ s'.cache.thrown u = s.cache.thrown u) :
    Settled s' u := by
  obtain ⟨pc,held,thrown⟩ := cache
  refine .of place ?_
  unfold Settled at settled
  unfold Standing at settled ⊢
  rw [pc,held,thrown,ids]
  split at settled
  · exact settled
  · exact settled
  · obtain ⟨idle,mine,is,leads⟩ := settled
    exact ⟨idle,mine,is,Sat.stable leads (show s.ids u = s.ids u from rfl)⟩
  · exact settled

/-- What a step of one thread leaves to the others. -/
structure Apart (t : T) (s s' : State T) : Prop where
  place : ∀ u, u ≠ t → s'.place u = s.place u
  ids : ∀ u, u ≠ t → s'.ids u = s.ids u
  cache : ∀ u, u ≠ t → s'.cache.pc u = s.cache.pc u ∧ s'.cache.held u = s.cache.held u ∧
    s'.cache.thrown u = s.cache.thrown u

theorem Inv.step (inv : Inv s) (apart : Apart t s s') (cache : LockUtils.Invariant s'.cache) (own : Settled s' t)
    (same : ∀ keys ∈ s'.unlocked, keys.2 = keys.1) : Inv s' := by
  refine ⟨cache,fun u => ?_,same⟩
  by_cases is : u = t
  · exact is ▸ own
  · exact (inv.settled u).others (apart.place u is) (apart.ids u is) (apart.cache u is)

private theorem goto_apart (s : State T) (t : T) (place : Place) : Apart t s (s.goto t place) :=
  ⟨fun _ other => Function.update_of_ne other _ _,fun _ _ => rfl,fun _ _ => ⟨rfl,rfl,rfl⟩⟩

theorem goto_place (s : State T) (t : T) (place : Place) : (s.goto t place).place t = place := Function.update_self _ _ _

private theorem heartbeat_inv (inv : Inv s) {heartbeat : ErNodeHeartbeat} {cache : LockUtils.State T Int} (idle : s.place t = .idle)
    (called : s.cache.call t (.check heartbeat.node.id) = some cache) :
    Inv { s with
      cache := cache
      place := Function.update s.place t (.locking heartbeat.node.id heartbeat)
      ids := Function.update s.ids t heartbeat.node.id } := by
  refine inv.step (t := t) ⟨fun _ other => Function.update_of_ne other _ _,fun _ other => Function.update_of_ne other _ _,
    fun _ other => LockUtils.call_others other called⟩ (inv.cache.call rfl rfl called) ?_ inv.same
  have settled := inv.settled t
  rw [Settled,idle] at settled
  obtain ⟨pc,held,thrown⟩ := LockUtils.call_own called
  refine .of (Function.update_self _ _ _) ⟨rfl,Function.update_self _ _ _,.inl ⟨?_,thrown,held.trans settled.2⟩⟩
  rw [pc]
  exact rfl

private theorem locking_inv (inv : Inv s) {heartbeat : ErNodeHeartbeat} (place : s.place t = .locking key heartbeat)
    (stepped : s.advance t env = some s') : Inv s' := by
  have settled := inv.settled t
  rw [Settled,place] at settled
  obtain ⟨node,ids,rest⟩ := settled
  unfold State.advance at stepped
  rw [place] at stepped
  simp only at stepped
  split at stepped
  case isTrue idle =>
    cases stepped
    refine inv.step (goto_apart s t _) inv.cache (.of (goto_place _ _ _) ?_) inv.same
    rcases rest with ⟨locks,-⟩ | ⟨-,works,mine⟩ | ⟨-,throws,empty⟩
    · rw [idle] at locks
      exact locks.elim
    · rw [if_pos works]
      exact ⟨idle,mine,ids,nodeHeartbeat_leads heartbeat ids⟩
    · rw [if_neg throws]
      exact ⟨idle,empty⟩
  case isFalse busy =>
    obtain ⟨cache,advanced,rfl⟩ := Option.map_eq_some_iff.mp stepped
    refine inv.step (t := t) ⟨fun _ _ => rfl,fun _ _ => rfl,fun u other => LockUtils.advance_others other advanced⟩
      (inv.cache.advance advanced) (.of place ⟨node,ids,?_⟩) inv.same
    rcases rest with ⟨locks,works,empty⟩ | ⟨idle,-⟩ | ⟨idle,-⟩
    · rcases LockUtils.advance_locking locks advanced with ⟨pc,held,thrown⟩ | ⟨pc,thrown,lock,held⟩ | ⟨pc,thrown,held⟩
      · exact .inl ⟨pc,thrown.trans works,held.trans empty⟩
      · exact .inr (.inl ⟨pc,thrown.trans works,lock,by rw [held,empty]⟩)
      · exact .inr (.inr ⟨pc,thrown,held.trans empty⟩)
    · exact absurd idle busy
    · exact absurd idle busy

private theorem inside_inv (inv : Inv s) {body : Change Unit} (place : s.place t = .inside key body)
    (kept : ∀ op next, body = .call op next → keepsId ⟨s.ids t,s.heartbeats⟩ op env = true)
    (stepped : s.advance t env = some s') : Inv s' := by
  have settled := inv.settled t
  rw [Settled,place] at settled
  obtain ⟨idle,⟨lock,mine⟩,ids,leads⟩ := settled
  unfold State.advance at stepped
  rw [place] at stepped
  cases body with
  | call op next =>
    obtain ⟨⟨view,answer⟩,served,rfl⟩ := Option.map_eq_some_iff.mp stepped
    have allowed : serve.restrict keepsId ⟨s.ids t,s.heartbeats⟩ op env = some (view,answer) := by
      rw [Service.restrict,if_pos (kept op next rfl)]
      exact served
    obtain ⟨same,-,rest⟩ := leads _ rfl ids env view answer allowed
    have moved : (contract key).rely view ⟨Function.update s.ids t view.id t,view.heartbeats⟩ :=
      show Function.update s.ids t view.id t = view.id from Function.update_self _ _ _
    refine inv.step (t := t) ⟨fun _ other => Function.update_of_ne other _ _,fun _ other => Function.update_of_ne other _ _,
      fun _ _ => ⟨rfl,rfl,rfl⟩⟩ inv.cache (.of (Function.update_self _ _ _) ⟨idle,⟨lock,mine⟩,?_,?_⟩) inv.same
    · exact (Function.update_self _ _ _).trans same
    · exact Sat.stable rest moved
  | ended result =>
    obtain ⟨locked,unlocks,rfl⟩ := Option.map_eq_some_iff.mp stepped
    obtain ⟨cache,called,rfl⟩ := Option.map_eq_some_iff.mp unlocks
    refine inv.step (t := t) ⟨fun _ other => Function.update_of_ne other _ _,fun _ _ => rfl,
      fun u other => LockUtils.call_others other called⟩ (inv.cache.call rfl rfl called) ?_ fun keys member => ?_
    · obtain ⟨pc,held,-⟩ := LockUtils.call_own called
      refine .of (Function.update_self _ _ _) (.inr ⟨lock,held.trans mine,.inl ?_⟩)
      rw [← ids]
      exact pc
    · rcases List.mem_append.mp member with old | new
      · exact inv.same keys old
      · rw [List.mem_singleton.mp new]
        exact ids

private theorem unlocking_inv (inv : Inv s) (place : s.place t = .unlocking key) (stepped : s.advance t env = some s') : Inv s' := by
  have settled := inv.settled t
  rw [Settled,place] at settled
  unfold State.advance at stepped
  rw [place] at stepped
  simp only at stepped
  split at stepped
  case isTrue idle =>
    cases stepped
    refine inv.step (goto_apart s t _) inv.cache (.of (goto_place _ _ _) ?_) inv.same
    rcases settled with free | ⟨lock,-,finds | releases⟩
    · exact free
    · rw [idle] at finds
      cases finds
    · rw [idle] at releases
      cases releases
  case isFalse busy =>
    obtain ⟨cache,advanced,rfl⟩ := Option.map_eq_some_iff.mp stepped
    refine inv.step (t := t) ⟨fun _ _ => rfl,fun _ _ => rfl,fun u other => LockUtils.advance_others other advanced⟩
      (inv.cache.advance advanced) (.of place ?_) inv.same
    rcases settled with ⟨idle,-⟩ | ⟨lock,mine,finds | releases⟩
    · exact absurd idle busy
    · obtain ⟨pc,held⟩ := LockUtils.advance_find inv.cache finds (by rw [mine]; exact List.mem_singleton_self _) advanced
      exact .inr ⟨lock,held.trans mine,.inr pc⟩
    · obtain ⟨pc,held⟩ := LockUtils.advance_release releases advanced
      refine .inl ⟨pc,held.trans ?_⟩
      rw [mine]
      exact List.eraseP_cons_of_pos (decide_eq_true rfl)

theorem init_inv : Inv (State.init : State T) := ⟨.init,fun _ => ⟨rfl,rfl⟩,nofun⟩

private theorem drop_inv (inv : Inv s) (unused : ∀ t, ¬ LockUtils.Uses s.cache t key) :
    Inv { s with cache := s.cache.drop key } :=
  ⟨inv.cache.drop unused,inv.settled,inv.same⟩

private theorem system_inv [Fintype T] (inv : Inv s) {act : Act T} (ordered : orderly s act = true)
    (stepped : system.step s act = some s') : Inv s' := by
  cases act with
  | heartbeat t heartbeat =>
    simp only [system] at stepped
    split at stepped
    case h_1 idle =>
      obtain ⟨locked,locks,rfl⟩ := Option.map_eq_some_iff.mp stepped
      obtain ⟨cache,called,rfl⟩ := Option.map_eq_some_iff.mp locks
      exact heartbeat_inv inv idle called
    case h_2 => cases stepped
  | advance t env =>
    cases place : s.place t with
    | idle =>
      simp only [system,State.advance,place] at stepped
      cases stepped
    | locking key heartbeat => exact locking_inv inv place stepped
    | inside key body =>
      refine inside_inv inv place (fun op next is => ?_) stepped
      simpa only [orderly,place,is] using ordered
    | unlocking key => exact unlocking_inv inv place stepped
  | evict key =>
    obtain ⟨cache,dropped,rfl⟩ := Option.map_eq_some_iff.mp stepped
    simp only [LockUtils.system,Option.ite_none_right_eq_some,Option.some.injEq] at dropped
    obtain ⟨-,rfl⟩ := dropped
    exact drop_inv inv (of_decide_eq_true ordered)
  | expire key =>
    cases stepped
    exact drop_inv inv (of_decide_eq_true ordered)

/-- Where the database keeps the ids of the nodes and the cache the locks in use, heartbeats give
back what they have taken. -/
theorem nodeHeartbeat_releases [Fintype T] (reached : (system.restrict orderly).Reachable s) : Releases s := by
  have inv : Inv s := by
    apply reached.invariant
    · rintro _ rfl
      exact init_inv
    · intro s act s' inv stepped
      obtain ⟨ordered,stepped⟩ := (System.restrict_step_iff _ _ _ _ _).mp stepped
      exact system_inv inv ordered stepped
  refine ⟨inv.same,fun t lock owner => ?_⟩
  obtain ⟨key,mine⟩ := inv.cache.owned owner
  have settled := inv.settled t
  rw [Settled] at settled
  cases place : s.place t with
  | idle =>
    rw [place] at settled
    rw [settled.2] at mine
    cases mine
  | _ => rfl

end

def unnumbered : ErNodeHeartbeat := ⟨1,⟨-1,"",0,⟨"host",4670⟩,"NODE_MANAGER","HEALTHY",[]⟩⟩

def handle (t : Bool) (env : Env) (n : ℕ) : List (Act Bool) := .heartbeat t unnumbered :: List.replicate n (.advance t env)

/-- The node is new. -/
theorem nodeHeartbeat_releases_new : ∃ s : State Bool, (system.restrict orderly).Reachable s ∧
    s.unlocked = [(-1,-1)] ∧ s.cache.pc true = .acquire (-1) 0 ∧ Releases s := by
  have ran : ((system.restrict orderly).exec (State.init : State Bool)
      (handle false { generated := 7 } 18 ++ handle true {} 2)).any (fun s => decide
      (s.unlocked = [(-1,-1)] ∧ s.cache.pc true = .acquire (-1) 0)) = true := by decide +kernel
  obtain ⟨s,run,found⟩ := (Option.any_eq_true _ _).mp ran
  obtain ⟨unlocked,waits⟩ := of_decide_eq_true found
  have reached : (system.restrict orderly).Reachable s := ⟨_,_,rfl,run⟩
  exact ⟨s,reached,unlocked,waits,nodeHeartbeat_releases reached⟩

/-- The node is found by its address: the lock of `-1` is taken and that of its id given back, and
the next node without an id waits for a thread that is in no heartbeat. -/
theorem nodeHeartbeat_leaks : ∃ s : State Bool, system.Reachable s ∧ s.unlocked = [(-1,5)] ∧
    s.cache.pc true = .acquire (-1) 0 ∧ (s.cache.locks 0).owner = some false ∧ (s.place false).isIdle = true ∧
    ¬ Releases s := by
  have ran : (system.exec (State.init : State Bool)
      (handle false { found := [5] } 21 ++ handle true {} 2)).any (fun s => decide
      (s.unlocked = [(-1,5)] ∧ s.cache.pc true = .acquire (-1) 0 ∧ (s.cache.locks 0).owner = some false ∧
        (s.place false).isIdle = true)) = true := by decide +kernel
  obtain ⟨s,run,found⟩ := (Option.any_eq_true _ _).mp ran
  obtain ⟨unlocked,waits,owner,idle⟩ := of_decide_eq_true found
  refine ⟨s,⟨_,_,rfl,run⟩,unlocked,waits,owner,idle,fun releases => ?_⟩
  exact absurd (idle.symm.trans (releases.free false 0 owner)) (by decide)

end Eggroll.NodeHeartbeat
