import Eggroll.ActiveCount
import Eggroll.Library.Locking
import Eggroll.TerminalStatus

/-! The order in which the cluster manager takes its locks: the lock of a job in
`ClusterResourceManager`, then that of its session, of a processor, of the resources and of a
node. Everything that changes sessions and processors keeps to it, so that nothing waits in a
circle, and no failure leaves a lock behind. Each key has one lock for ever here. -/
namespace Eggroll.Cluster.LockOrder
open Library TerminalStatus
open Program hiding call

/-- A lock of one of the machines, or the lock of a session in `ClusterResourceManager`. -/
inductive Key
  | machine (cache : LockCache) (key : String)
  | session (sessionId : String)
deriving Repr, DecidableEq

def level : Key → ℕ
  | .session _ => 0
  | .machine .session _ => 1
  | .machine .processor _ => 2
  | .machine .resource _ => 3
  | .machine .nodeResource _ => 4

private theorem level_lt (key : Key) : level key < 5 := by
  rcases key with ⟨cache,key⟩ | key
  · cases cache <;> simp [level]
  · simp [level]

def lockAct : Op → Option (LockAct Key)
  | .lock cache key => some (.acquire (.machine cache key))
  | .unLock cache key => some (.release (.machine cache key))
  | _ => none

def callAct : Call → Option (LockAct Key)
  | .machine op => lockAct op
  | .lockSession sessionId => some (.acquire (.session sessionId))
  | .unlockSession sessionId => some (.release (.session sessionId))
  | _ => none

/-- Everything that takes locks: what is done to sessions, changes of processors, and the tasks
of the pool that count the active processors. -/
inductive Request
  | session (request : TerminalStatus.Request)
  | changeProcessor (context : Context) (erProcessor : ErProcessor) (preStateParam desStateParam : String)
      (callback : Bool)
  | updateActiveCount (processorInDb : Option ErProcessor) (sessionId : String)
deriving Repr, DecidableEq

def Request.program (info : MetaInfo) : Request → Acting Unit
  | .session request => request.program info
  | .changeProcessor context erProcessor pre des callback => acting do
    let _ ← (processorStateMachine info.useResourceDispatch).changeStatus context erProcessor pre des callback
    pure ()
  | .updateActiveCount processorInDb sessionId => acting (ActiveCount.asynPostHandle info processorInDb sessionId)

abbrev Run := Pool State Request Call Answer Failure Unit

def system (info : MetaInfo) : System Run (Pool.Act Request World) :=
  Pool.system (fun s => ∃ tables, s = .init tables) (Request.program info) State.serve

def lockOf (s : State) : Key → ReentrantLock ℕ
  | .machine cache key => s.locks cache key
  | .session sessionId => s.sessionLocks sessionId

variable {held : List Key}

abbrev InOrder {α : Type} (held : List Key) (p : Change α) : Prop := p.Balanced lockAct level (fun _ => True) held

private theorem call_inOrder {op : Op} (other : lockAct op = none) : (call op).Balanced lockAct level (fun _ => True) held :=
  .of_makes (.perform (P := fun op => lockAct op = none) other) fun _ => id

private theorem call_then {α : Type} {op : Op} {f : Ans op → Change α} (other : lockAct op = none)
    (follows : ∀ a, InOrder held (f a)) : InOrder held (call op >>= f) := .bind (call_inOrder other) fun a _ => follows a

private theorem lock_takes {cache : LockCache} {key : String} (above : Above level held (.machine cache key)) :
    (call (.lock cache key)).Orderly lockAct level
      (fun result rest => rest = .machine cache key :: held ∧ ∃ a, result = .ok a) held := .acquire rfl above

private theorem unLock_gives (cache : LockCache) (key : String) :
    (call (.unLock cache key)).Orderly lockAct level
      (fun result rest => rest = held ∧ ∃ a, result = .ok a) (.machine cache key :: held) := .release rfl

private theorem raise_inOrder {α : Type} {e : Failure} : InOrder held (raise e : Change α) := .raise

private theorem pure_inOrder {α : Type} {a : α} : InOrder held (pure a : Change α) := .pure trivial

def Below (n : ℕ) (held : List Key) : Prop := ∀ key ∈ held, level key < n

theorem Below.nil (n : ℕ) : Below n [] := nofun

theorem Below.cons {n : ℕ} {key : Key} (below : Below n held) (lower : level key < n) : Below n (key :: held) :=
  List.forall_mem_cons.mpr ⟨lower,below⟩

theorem Below.mono {m n : ℕ} (below : Below m held) (le : m ≤ n) : Below n held :=
  fun key mem => Nat.lt_of_lt_of_le (below key mem) le

section
variable {T : Type} {handler : StateHandler T} {context : Context} {t : T} {pre des : String} {callback : Bool}

private theorem locked_inOrder {A : Context × T → Prop}
    (prepare : (handler.prepare context t pre des).Balanced lockAct level A held)
    (handle : ∀ prepared, A prepared → InOrder held (handler.handle prepared.1 prepared.2 pre des)) :
    InOrder held (AbstractStateMachine.locked handler context t pre des callback) := by
  refine .bind prepare fun prepared holds => ?_
  split
  · exact pure_inOrder
  · refine .bind (A := fun _ => True) (.bind (handle prepared holds) fun result _ => ?_) fun result _ => ?_
    · split
      · exact call_then rfl fun _ => pure_inOrder
      · exact pure_inOrder
    · unfold AbstractStateMachine.submitPost
      split
      · exact call_then rfl fun _ => pure_inOrder
      · exact pure_inOrder

private theorem changeStatus_inOrder {machine : AbstractStateMachine T} {A : (Context × T) × String → Prop}
    (line : (machine.buildStateChangeLine context t pre des).Balanced lockAct level A held)
    (above : ∀ built, A built → Above level held (.machine machine.cache (machine.getLockKey built.1.1 built.1.2)))
    (handlers : ∀ built, A built → ∀ handler, machine.handler built.2 = some handler →
      InOrder (.machine machine.cache (machine.getLockKey built.1.1 built.1.2) :: held)
        (AbstractStateMachine.locked handler built.1.1 built.1.2 pre des callback)) :
    InOrder held (machine.changeStatus context t pre des callback) := by
  refine .bind line fun built holds => ?_
  cases given : machine.handler built.2 with
  | none => exact raise_inOrder
  | some handler =>
    exact .guardedInside (lock_takes (above built holds)) (handlers built holds handler given) (unLock_gives _ _)

end

private theorem updateAll_inOrder (rows : List NodeResource) : InOrder held (updateAll rows) := by
  induction rows with
  | nil => exact pure_inOrder
  | cons row rest ih => exact call_then rfl fun _ => ih

private theorem getNodeResource_inOrder (resourceMap : List NodeResource) (serverNodeId : Int) (resourceType : String) :
    InOrder held (getNodeResource resourceMap serverNodeId resourceType) := by
  unfold getNodeResource
  split
  · exact pure_inOrder
  · refine call_then rfl fun found => ?_
    cases found with
    | some row => exact pure_inOrder
    | none => exact raise_inOrder

private theorem eachResource_inOrder (change : NodeResource → ErResource → NodeResource) (serverNodeId : Int)
    (resourceMap : List NodeResource) (resources : List ErResource) :
    InOrder held (eachResource change serverNodeId resourceMap resources) := by
  induction resources generalizing resourceMap with
  | nil => exact pure_inOrder
  | cons resource rest ih =>
    refine .bind (getNodeResource_inOrder resourceMap serverNodeId resource.resourceType) fun nodeResource _ => ?_
    exact .bind (updateAll_inOrder _) fun _ _ => ih _

private theorem saveResources_inOrder (erProcessor : ErProcessor) (resources : List ErResource) :
    InOrder held (saveResources erProcessor resources) := by
  induction resources with
  | nil => exact pure_inOrder
  | cons resource rest ih => exact call_then rfl fun _ => ih

private theorem updateResources_inOrder (desState : String) (resources : List ErResource) :
    InOrder held (updateResources desState resources) := by
  induction resources with
  | nil => exact pure_inOrder
  | cons resource rest ih => exact call_then rfl fun _ => ih

private theorem changeResource_inOrder (below : Below 4 held) (change : NodeResource → ErResource → NodeResource)
    (erProcessor : ErProcessor) {rows : Change Unit} (inOrder : ∀ held, InOrder held rows) :
    InOrder held (changeResource change erProcessor rows) :=
  .guarded (lock_takes (.inr below))
    (.bind (eachResource_inOrder change erProcessor.serverNodeId [] erProcessor.resources) fun _ _ => inOrder _)
    (unLock_gives _ _)

private theorem onStateLine_inOrder (below : Below 4 held) (data : ErProcessor) (line : String) :
    InOrder held (onStateLine data line) := by
  unfold onStateLine
  split
  · exact changeResource_inOrder below _ data fun _ => saveResources_inOrder data data.resources
  · exact changeResource_inOrder below _ data fun _ => updateResources_inOrder _ data.resources
  · exact changeResource_inOrder below _ data fun _ => updateResources_inOrder _ data.resources
  · exact changeResource_inOrder below _ data fun _ => updateResources_inOrder _ data.resources
  · exact pure_inOrder

private theorem loadResources_inOrder (data : ErProcessor) : InOrder held (loadResources data) := by
  unfold loadResources
  split
  · exact call_then rfl fun _ => pure_inOrder
  · exact pure_inOrder

private theorem resource_inOrder (below : Below 3 held) (context : Context) (data : ErProcessor) (pre des : String)
    (callback : Bool) : InOrder held (resourceStateMechine.changeStatus context data pre des callback) := by
  refine changeStatus_inOrder (A := fun _ => True) pure_inOrder (fun _ _ => .inr below) fun built _ handler given => ?_
  simp only [resourceStateMechine,Option.ite_none_right_eq_some,Option.some.injEq] at given
  obtain ⟨-,rfl⟩ := given
  refine locked_inOrder (A := fun _ => True) pure_inOrder fun prepared _ => ?_
  refine .bind (loadResources_inOrder prepared.2) fun loaded _ => ?_
  refine .bind (onStateLine_inOrder ?_ loaded _) fun _ _ => pure_inOrder
  exact (below.mono (by omega)).cons (by simp [level,resourceStateMechine])

section
variable (useResourceDispatch : Bool)

private theorem resourceIfNeeded_inOrder (below : Below 3 held) (context : Context) (data : ErProcessor) (pre des : String) :
    InOrder held (changeResourceIfNeeded useResourceDispatch context data pre des) := by
  unfold changeResourceIfNeeded
  split
  · exact resource_inOrder below context data pre des false
  · exact pure_inOrder

private theorem processorPrepare_inOrder (context : Context) (data : ErProcessor) (pre des : String) :
    InOrder held (processorPrepare context data pre des) := by
  unfold processorPrepare
  cases context.processorInDb with
  | some processorInDb => exact pure_inOrder
  | none =>
    refine call_then rfl fun found => ?_
    cases found with
    | some row => exact pure_inOrder
    | none => exact pure_inOrder

private theorem readBack_inOrder (context : Context) (data : ErProcessor) (missing : Failure) :
    InOrder held (readBack context data missing) := by
  refine call_then rfl fun found => ?_
  cases found with
  | some row => exact pure_inOrder
  | none => exact raise_inOrder

private theorem processorHandler_inOrder (below : Below 3 held) (line : String) (context : Context) (data : ErProcessor)
    (pre des : String) (callback : Bool) :
    InOrder held (AbstractStateMachine.locked (processorHandler useResourceDispatch line) context data pre des callback) := by
  have resources (context : Context) (data : ErProcessor) (pre des : String) :
      InOrder held (changeResourceIfNeeded useResourceDispatch context data pre des) :=
    resourceIfNeeded_inOrder useResourceDispatch below context data pre des
  unfold processorHandler
  split
  · refine locked_inOrder (A := fun _ => True) pure_inOrder fun prepared _ => ?_
    exact call_then rfl fun _ => resources _ _ _ _
  split
  · refine locked_inOrder (A := fun _ => True) pure_inOrder fun prepared _ => ?_
    exact call_then rfl fun _ => .bind (resources _ _ _ _) fun _ _ => readBack_inOrder _ _ _
  split
  · refine locked_inOrder (A := fun _ => True) pure_inOrder fun prepared _ => ?_
    exact call_then rfl fun _ => .bind (resources _ _ _ _) fun _ _ => readBack_inOrder _ _ _
  split
  · refine locked_inOrder (A := fun _ => True) (processorPrepare_inOrder context data pre des) fun prepared _ => ?_
    exact call_then rfl fun _ => resources _ _ _ _
  split
  · refine locked_inOrder (A := fun _ => True) (processorPrepare_inOrder context data pre des) fun prepared _ => ?_
    exact call_then rfl fun _ => pure_inOrder
  · exact locked_inOrder (A := fun _ => True) (processorPrepare_inOrder context data pre des) fun _ _ => pure_inOrder

private theorem processor_inOrder (below : Below 2 held) (context : Context) (erProcessor : ErProcessor) (pre des : String)
    (callback : Bool) :
    InOrder held ((processorStateMachine useResourceDispatch).changeStatus context erProcessor pre des callback) := by
  refine changeStatus_inOrder (A := fun _ => True) (call_then rfl fun _ => pure_inOrder)
    (fun _ _ => .inr below) ?_
  rintro built - _ ⟨⟩
  exact processorHandler_inOrder useResourceDispatch
    ((below.mono (by omega)).cons (by simp [level,processorStateMachine])) _ _ _ pre des callback

end

private theorem notNull_inOrder {T : Type} (found : Option T) : InOrder held (notNull found) := by
  cases found with
  | some t => exact pure_inOrder
  | none => exact raise_inOrder

private theorem withResources_inOrder (processors : List ErProcessor) : InOrder held (withResources processors) := by
  induction processors with
  | nil => exact pure_inOrder
  | cons processor rest ih => exact call_then rfl fun _ => .bind ih fun _ _ => pure_inOrder

private theorem getProcessorBySession_inOrder (sessionId : String) (withResource : Bool) :
    InOrder held (getProcessorBySession sessionId withResource) := by
  refine call_then rfl fun _ => call_then rfl fun rows => ?_
  dsimp only
  split
  · exact withResources_inOrder _
  · exact pure_inOrder

private theorem getSession_inOrder (sessionId : String) (withProcessor withOption withResource : Bool) :
    InOrder held (getSession sessionId withProcessor withOption withResource) := by
  refine call_then rfl fun found => ?_
  cases found with
  | none => exact pure_inOrder
  | some row =>
    have options (processors : List ErProcessor) : InOrder held (do
        let options ← if withOption then call (.listOptions sessionId) else pure []
        pure (some { row.toErSessionMeta with
          processors := processors
          options := options.foldl putOption [] })) := by
      cases withOption with
      | true => exact call_then rfl fun _ => pure_inOrder
      | false => exact pure_inOrder
    cases withProcessor with
    | true => exact .bind (getProcessorBySession_inOrder sessionId withResource) fun processors _ => options processors
    | false => exact options []

private theorem found_inOrder (sessionId : String) (withProcessor withOption withResource : Bool) :
    InOrder held (getSession sessionId withProcessor withOption withResource >>= notNull) :=
  .bind (getSession_inOrder sessionId withProcessor withOption withResource) fun found _ => notNull_inOrder found

private theorem getSessionMain_inOrder (sessionId : String) : InOrder held (getSessionMain sessionId) :=
  call_then rfl fun _ => pure_inOrder

private theorem saveOptions_inOrder (sessionId : String) (options : Options) : InOrder held (saveOptions sessionId options) := by
  induction options with
  | nil => exact pure_inOrder
  | cons option rest ih => exact call_then rfl fun _ => ih

private theorem isOverState_inOrder (status : String) : InOrder held (isOverState status) := by
  unfold isOverState
  split
  · exact pure_inOrder
  split
  · exact pure_inOrder
  split
  · exact raise_inOrder
  · exact raise_inOrder

private theorem checkSessionRpcReady_inOrder (sessionId : String) (looks : ℕ) :
    InOrder held (checkSessionRpcReady sessionId looks) := by
  induction looks with
  | zero => exact pure_inOrder
  | succ looks ih =>
    refine .bind (getSession_inOrder sessionId false false false) fun cur _ => ?_
    cases cur with
    | none => exact pure_inOrder
    | some cur =>
      refine .bind (isOverState_inOrder cur.status) fun over_ _ => ?_
      split
      · exact pure_inOrder
      split
      · exact ih
      · exact pure_inOrder

private theorem busyWait_inOrder (sessionId : String) (looks : ℕ) : InOrder held (busyWait sessionId looks) := by
  induction looks with
  | zero => exact getSession_inOrder sessionId false false false
  | succ looks ih =>
    refine .bind (getSession_inOrder sessionId false false false) fun cur _ => ?_
    split
    · exact pure_inOrder
    · exact ih

section
variable (info : MetaInfo)

private theorem changeEach_inOrder (below : Below 2 held) (des : String) (context : Context) (processors : List ErProcessor) :
    InOrder held (changeEach info des context processors) := by
  induction processors generalizing context with
  | nil => exact pure_inOrder
  | cons processor rest ih =>
    exact .bind (processor_inOrder info.useResourceDispatch below context processor "" des false) fun _ _ =>
      .bind (ih _) fun _ _ => pure_inOrder

private theorem doInserSession_inOrder (below : Below 2 held) (context : Context) (erSessionMeta : ErSessionMeta) :
    InOrder held (doInserSession info context erSessionMeta) :=
  .bind (saveOptions_inOrder erSessionMeta.id erSessionMeta.options) fun _ _ =>
    .bind (changeEach_inOrder info below "NEW" context erSessionMeta.processors) fun _ _ => pure_inOrder

private theorem buildSession_inOrder (context : Context) (erSessionMeta : ErSessionMeta) :
    InOrder held (buildSession info context erSessionMeta) := by
  unfold buildSession
  split
  · exact raise_inOrder
  · refine .bind (A := fun _ => True) ?_ fun _ _ => pure_inOrder
    unfold eggsPerNode
    split
    · exact pure_inOrder
    · exact raise_inOrder

section
variable {context : Context} {data : ErSessionMeta} {pre des : String} {callback : Bool}

private theorem getServerNodes_inOrder (pre des : String) : InOrder held (getServerNodes context data pre des) :=
  call_then rfl fun _ => pure_inOrder

private theorem create_inOrder (below : Below 2 held) :
    InOrder held (AbstractStateMachine.locked (sessionCreateHandler info) context data pre des callback) := by
  refine locked_inOrder (A := fun _ => True) (getServerNodes_inOrder pre des) fun prepared _ => ?_
  refine .bind (getSession_inOrder _ true true false) fun found _ => ?_
  cases found with
  | some sessionInDb => exact pure_inOrder
  | none =>
    refine .bind (buildSession_inOrder info _ _) fun _ _ => call_then rfl fun _ => ?_
    exact .bind (doInserSession_inOrder info below _ _) fun _ _ => pure_inOrder

private theorem waitNew_inOrder (below : Below 2 held) :
    InOrder held (AbstractStateMachine.locked (sessionWaitNewHandler info) context data pre des callback) := by
  refine locked_inOrder (A := fun _ => True) (getServerNodes_inOrder pre des) fun prepared _ => ?_
  refine .bind (buildSession_inOrder info _ _) fun _ _ => call_then rfl fun _ => ?_
  exact .bind (doInserSession_inOrder info below _ _) fun _ _ => pure_inOrder

private theorem active_inOrder :
    InOrder held (AbstractStateMachine.locked sessionActiveHandler context data pre des callback) := by
  refine locked_inOrder (A := fun _ => True) (.bind (found_inOrder data.id false false false) fun _ _ => pure_inOrder)
    fun prepared _ => ?_
  exact call_then rfl fun _ => .bind (found_inOrder _ false false false) fun _ _ => pure_inOrder

private theorem end_inOrder (below : Below 2 held) (processorStatus : String) :
    InOrder held (AbstractStateMachine.locked (sessionEndHandler info processorStatus) context data pre des callback) := by
  refine locked_inOrder (A := fun _ => True) ?_ fun prepared _ => ?_
  · refine .bind (getSession_inOrder data.id true false false) fun found _ => ?_
    cases found with
    | none => exact raise_inOrder
    | some erSessionMeta =>
      dsimp only
      split
      · exact raise_inOrder
      · exact pure_inOrder
  · refine call_then rfl fun _ => .bind (changeEach_inOrder info below _ _ _) fun _ _ => ?_
    exact .bind (found_inOrder _ true false false) fun _ _ => pure_inOrder

private theorem others_inOrder {handler : StateHandler ErSessionMeta}
    (is : handler = sessionWaitResourceHandler ∨ handler = sessionWaitingKillHandler ∨ handler = sessionIgnoreHandler) :
    InOrder held (AbstractStateMachine.locked handler context data pre des callback) := by
  obtain rfl | rfl | rfl := is
  · exact locked_inOrder (A := fun _ => True) pure_inOrder fun _ _ => call_then rfl fun _ => pure_inOrder
  · exact locked_inOrder (A := fun _ => True) pure_inOrder fun _ _ => call_then rfl fun _ => pure_inOrder
  · exact locked_inOrder (A := fun _ => True) pure_inOrder fun _ _ => pure_inOrder

private theorem sessionHandler_inOrder (below : Below 2 held) (repeatedCreate : StateHandler ErSessionMeta)
    (repeated : InOrder held (AbstractStateMachine.locked repeatedCreate context data pre des callback)) (line : String) :
    InOrder held (AbstractStateMachine.locked (sessionHandler info repeatedCreate line) context data pre des callback) := by
  unfold sessionHandler
  split
  · exact others_inOrder (.inl rfl)
  split
  · exact waitNew_inOrder info below
  split
  · exact create_inOrder info below
  split
  · exact repeated
  split
  · exact active_inOrder
  split
  · exact end_inOrder info below "KILLED"
  split
  · exact end_inOrder info below "STOPPED"
  split
  · exact others_inOrder (.inr (.inl rfl))
  · exact others_inOrder (.inr (.inr rfl))

end

private theorem machine_inOrder {context : Context} {erSessionMeta : ErSessionMeta} {pre des : String} {callback : Bool}
    (above : Above level held (.machine .session erSessionMeta.id)) (below : Below 2 held)
    (repeatedCreate : StateHandler ErSessionMeta)
    (repeated : ∀ context, InOrder (.machine .session erSessionMeta.id :: held)
      (AbstractStateMachine.locked repeatedCreate context erSessionMeta pre des callback)) :
    InOrder held ((sessionMachineWith info repeatedCreate).changeStatus context erSessionMeta pre des callback) := by
  refine changeStatus_inOrder (A := fun built => built.1.2 = erSessionMeta)
    (.bind (getSession_inOrder erSessionMeta.id true false false) fun _ _ => .pure rfl) ?_ ?_
  · rintro ⟨⟨context,_⟩,line⟩ rfl
    exact above
  · rintro ⟨⟨context,_⟩,line⟩ rfl _ ⟨⟩
    exact sessionHandler_inOrder info (below.cons (by simp [level])) repeatedCreate (repeated context) line

private theorem killUnstarted_inOrder (context : Context) (data : ErSessionMeta)
    (above : Above level held (.machine .session data.id)) (below : Below 2 held) :
    InOrder held (killUnstarted info context data) := by
  refine .bind (.bind (getSessionMain_inOrder data.id) fun found _ => notNull_inOrder found) fun erSessionMeta _ => ?_
  split
  · refine .bind (A := fun _ => True) ?_ fun _ _ => raise_inOrder
    exact machine_inOrder info above below sessionIgnoreHandler fun _ => others_inOrder (.inr (.inr rfl))
  · exact pure_inOrder

private theorem repeatedCreate_inOrder {context : Context} {data : ErSessionMeta} {pre des : String} {callback : Bool}
    (above : Above level held (.machine .session data.id)) (below : Below 2 held) :
    InOrder held (AbstractStateMachine.locked (sessionRepeatedCreateHandler info) context data pre des callback) := by
  refine locked_inOrder (A := fun prepared => prepared.2 = data) (.pure rfl) ?_
  rintro ⟨context,_⟩ rfl
  refine call_then rfl fun looks => .bind (checkSessionRpcReady_inOrder _ looks) fun ready _ => ?_
  have reads (context : Context) (sessionId : String) : InOrder held (do
      let sessionInDb ← getSession sessionId true true true >>= notNull
      pure (context,sessionInDb) : Change (Context × ErSessionMeta)) :=
    .bind (found_inOrder sessionId true true true) fun _ _ => pure_inOrder
  split
  · exact .bind (killUnstarted_inOrder info _ _ above below) fun _ _ => reads _ _
  · exact reads _ _

private theorem session_inOrder (context : Context) (erSessionMeta : ErSessionMeta) (pre des : String) (callback : Bool)
    (above : Above level held (.machine .session erSessionMeta.id)) (below : Below 2 held) :
    InOrder held ((sessionStateMachine info).changeStatus context erSessionMeta pre des callback) :=
  machine_inOrder info above below (sessionRepeatedCreateHandler info) fun _ =>
    repeatedCreate_inOrder info (.inl List.mem_cons_self) (below.cons (by simp [level]))

private theorem getOrCreateSession_inOrder (context : Context) (sessionMeta : ErSessionMeta) :
    InOrder [] (getOrCreateSession info context sessionMeta) := by
  refine .bind (getSession_inOrder sessionMeta.id true true false) fun found _ => ?_
  cases found with
  | some sessionInDb =>
    dsimp only
    split
    · exact raise_inOrder
    split
    · exact pure_inOrder
    · refine call_then rfl fun looks => .bind (busyWait_inOrder sessionMeta.id looks) fun cur _ => ?_
      cases cur with
      | some _ => exact getSession_inOrder _ true true false
      | none => exact pure_inOrder
  | none =>
    refine .bind (session_inOrder info context sessionMeta "" "NEW" false (.inr (Below.nil _)) (.nil _)) fun changed _ => ?_
    split
    · exact pure_inOrder
    refine call_then rfl fun actived => ?_
    split
    · exact .bind (killUnstarted_inOrder info _ _ (.inr (Below.nil _)) (.nil _)) fun _ _ => getSession_inOrder _ true true true
    · exact getSession_inOrder _ true true true

private theorem updateActiveCount_inOrder (processorInDb : Option ErProcessor) (sessionId : String) :
    InOrder [] (ActiveCount.asynPostHandle info processorInDb sessionId) := by
  refine .bind (notNull_inOrder processorInDb) fun processor _ => .bind (A := fun _ => True) ?_ fun isAllReady _ => ?_
  · refine .bind (getProcessorBySession_inOrder _ false) fun processors _ => ?_
    split
    · exact raise_inOrder
    · exact call_then rfl fun _ => pure_inOrder
  · split
    · refine .bind (found_inOrder sessionId false false false) fun sessionMeta _ => ?_
      split
      · exact raise_inOrder
      split
      · exact .bind (session_inOrder info {} sessionMeta "NEW" "ACTIVE" false (.inr (Below.nil _)) (.nil _)) fun _ _ => pure_inOrder
      · exact pure_inOrder
    · exact pure_inOrder

end

abbrev Ordered {α : Type} (held : List Key) (p : Acting α) : Prop := p.Balanced callAct level (fun _ => True) held

private theorem acting_ordered {α : Type} {p : Change α} (inOrder : InOrder held p) : Ordered held (acting p) :=
  ⟨inOrder.orderly.embed fun _ => rfl⟩

private theorem pure_ordered {α : Type} {a : α} : Ordered held (pure a : Acting α) := .pure trivial

private theorem raise_ordered {α : Type} {e : Failure} : Ordered held (raise e : Acting α) := .raise

private theorem ask_then {α : Type} {c : Call} {f : Answer c → Acting α} (other : callAct c = none)
    (follows : ∀ a, Ordered held (f a)) : Ordered held (ask c >>= f) :=
  .bind (.of_makes (.perform (P := fun c => callAct c = none) other) fun _ => id) fun a _ => follows a

private theorem attempt_ordered {α : Type} {p : Acting α} (ordered : Ordered held p) : Ordered held (attempt p) :=
  .andThen ordered (fun _ _ => pure_ordered) fun _ => pure_ordered

section
variable (info : MetaInfo)

private theorem change_inOrder (context : Context) (sessionMeta : ErSessionMeta) (pre des : String) (below : Below 1 held) :
    InOrder held (change info context sessionMeta pre des) :=
  .bind (session_inOrder info context sessionMeta pre des false (.inr below) (below.mono (by omega))) fun _ _ => pure_inOrder

private theorem getSessionById_inOrder (sessionId : String) : InOrder held (getSessionById sessionId) := by
  refine call_then rfl fun optList => ?_
  split
  · exact raise_inOrder
  · exact call_then rfl fun _ => .bind (getSessionMain_inOrder sessionId) fun _ _ => pure_inOrder

private theorem killSessionById_inOrder (context : Context) (sessionId : String) :
    InOrder [] (killSessionById info context sessionId) :=
  .bind (.bind (getSessionById_inOrder sessionId) fun found _ => notNull_inOrder found) fun sessionMeta _ =>
    change_inOrder info context sessionMeta "" "KILLED" (.nil _)

private theorem killEach_ordered (context : Context) (killList : List ErSessionMeta) : Ordered [] (killEach info context killList) := by
  induction killList generalizing context with
  | nil => exact pure_ordered
  | cons erSessionMeta rest ih =>
    refine .andThen (acting_ordered (session_inOrder info context erSessionMeta "" "KILLED" false (.inr (Below.nil _)) (.nil _)))
      (fun changed _ => ih changed.1) fun _ => ?_
    exact ask_then rfl fun _ => ih _

private theorem killNodes_ordered (sessionId statusReason : String) (sessionMeta : ErSessionMeta) (nodeIds : List Int) :
    Ordered held (killNodes sessionId statusReason sessionMeta nodeIds) := by
  induction nodeIds with
  | nil => exact pure_ordered
  | cons nodeId rest ih =>
    refine ask_then rfl fun erServerNode => ?_
    cases erServerNode with
    | none => exact raise_ordered
    | some erServerNode =>
      refine .bind (attempt_ordered ?_) fun _ _ => ih
      refine ask_then rfl fun _ => ?_
      exact .of_makes (.perform (P := fun c => callAct c = none) rfl) fun _ => id

private theorem killLocked_ordered (context : Context) (sessionId statusReason : String) (below : Below 1 held) :
    Ordered held (killLocked info context sessionId statusReason) := by
  refine ask_then rfl fun found => ?_
  cases found with
  | none => exact pure_ordered
  | some _ =>
    refine .bind (acting_ordered (.bind (getSessionById_inOrder sessionId) fun found _ => notNull_inOrder found))
      fun sessionMeta _ => ?_
    dsimp only
    split
    · exact pure_ordered
    split
    · exact raise_ordered
    split
    · exact acting_ordered (change_inOrder info _ sessionMeta "WAITING_RESOURCE" "ERROR" below)
    · exact ask_then rfl fun nodeIds => killNodes_ordered sessionId statusReason sessionMeta nodeIds

private theorem lockSession_takes (sessionId : String) : (ask (.lockSession sessionId)).Orderly callAct level
    (fun result rest => rest = [.session sessionId] ∧ ∃ a, result = .ok a) [] := .acquire rfl (.inr (Below.nil _))

private theorem unlockSession_gives (sessionId : String) : (ask (.unlockSession sessionId)).Orderly callAct level
    (fun result rest => rest = [] ∧ ∃ a, result = .ok a) [.session sessionId] := .release rfl

private theorem below_session (sessionId : String) : Below 1 [.session sessionId] := by simp [Below,level]

private theorem killJob_ordered (context : Context) (sessionId statusReason : String) :
    Ordered [] (killJob info context sessionId statusReason) :=
  .guarded (lockSession_takes sessionId) (killLocked_ordered info context sessionId statusReason (below_session sessionId))
    (unlockSession_gives sessionId)

private theorem dispatch_ordered (sessionId sessionName : String) : Ordered [] (dispatch info sessionId sessionName) := by
  refine .guardedInside (lockSession_takes sessionId) ?_ (unlockSession_gives sessionId)
  refine .bind (acting_ordered (.bind (getSessionMain_inOrder sessionId) fun found _ => notNull_inOrder found))
    fun sessionMain _ => ?_
  split
  · exact pure_ordered
  · refine ask_then rfl fun dispatched => ?_
    cases dispatched with
    | none => exact pure_ordered
    | some processors => exact acting_ordered (change_inOrder info _ _ "WAITING_RESOURCE" "NEW" (below_session sessionId))

private theorem changeProcessors_inOrder (status : String) (processors : List ErProcessor) :
    InOrder [] (changeProcessors info status processors) := by
  induction processors with
  | nil => exact pure_inOrder
  | cons processor rest ih =>
    exact .bind (processor_inOrder info.useResourceDispatch (.nil _) {} processor "" status false) fun _ _ => ih

private theorem watch_ordered (session : ErSessionMeta) : Ordered [] (watch info session) := by
  refine .bind (acting_ordered (found_inOrder session.id true false false)) fun sessionInDb _ => ?_
  have whenOverdue {p : Acting Unit} (ordered : Ordered [] p) : Ordered [] (do
      let overdue ← ask .overdue
      if overdue then p else pure ()) := by
    refine ask_then rfl fun overdue => ?_
    cases overdue with
    | true => exact ordered
    | false => exact pure_ordered
  split
  · split
    · unfold checkAndHandleDeepspeedActiveSession
      split
      · exact killJob_ordered info {} session.id "PROCESS_ERROR"
      split
      · exact ask_then rfl fun _ => acting_ordered (changeProcessors_inOrder info "FINISHED" session.processors)
      · exact pure_ordered
    split
    · exact whenOverdue (killJob_ordered info {} session.id "TIMEOUT")
    · exact pure_ordered
  split
  · refine ask_then rfl fun timeout => ?_
    split
    · exact acting_ordered (change_inOrder info _ session "" "ERROR" (.nil _))
    split
    · exact whenOverdue (acting_ordered (change_inOrder info {} session "" "ERROR" (.nil _)))
    · exact pure_ordered
  split
  · exact whenOverdue (acting_ordered (killSessionById_inOrder info _ session.id))
  · exact pure_ordered

private theorem watchEach_ordered (sessions : List ErSessionMeta) : Ordered [] (watchEach info sessions) := by
  induction sessions with
  | nil => exact pure_ordered
  | cons session rest ih => exact .bind (attempt_ordered (watch_ordered info session)) fun _ _ => ih

private theorem session_ordered (request : TerminalStatus.Request) : Ordered [] (request.program info) := by
  cases request with
  | changeStatus context sessionMeta pre des callback =>
    exact .bind (acting_ordered (session_inOrder info context sessionMeta pre des callback (.inr (Below.nil _)) (.nil _)))
      fun _ _ => pure_ordered
  | getOrCreateSession context sessionMeta =>
    exact .bind (acting_ordered (getOrCreateSession_inOrder info context sessionMeta)) fun _ _ => pure_ordered
  | stopSession context sessionMeta => exact acting_ordered (change_inOrder info context sessionMeta "" "KILLED" (.nil _))
  | killSession context sessionMeta => exact acting_ordered (change_inOrder info context sessionMeta "" "KILLED" (.nil _))
  | killSessionById context sessionId => exact acting_ordered (killSessionById_inOrder info context sessionId)
  | killAllSessions context => exact ask_then rfl fun killList => killEach_ordered info context killList
  | killJob context sessionId statusReason => exact killJob_ordered info context sessionId statusReason
  | dispatch sessionId sessionName => exact dispatch_ordered info sessionId sessionName
  | sessionWatcherSchedule =>
    exact attempt_ordered (ask_then rfl fun sessions => watchEach_ordered info sessions)

private theorem program_ordered (request : Request) : Ordered [] (request.program info) := by
  cases request with
  | session request => exact session_ordered info request
  | changeProcessor context erProcessor pre des callback =>
    exact acting_ordered (.bind (processor_inOrder info.useResourceDispatch (.nil _) context erProcessor pre des callback)
      fun _ _ => pure_inOrder)
  | updateActiveCount processorInDb sessionId => exact acting_ordered (updateActiveCount_inOrder info processorInDb sessionId)

end

theorem setLock_lockOf (s : State) (cache : LockCache) (key : String) (lock : ReentrantLock ℕ) :
    lockOf (s.setLock cache key lock) = Function.update (lockOf s) (.machine cache key) lock := by
  funext other
  rcases other with ⟨cache',key'⟩ | sessionId
  · by_cases same : cache' = cache
    · subst same
      by_cases equal : key' = key
      · subst equal
        simp [lockOf,State.setLock]
      · simp [lockOf,State.setLock,equal]
    · simp [lockOf,State.setLock,same]
  · simp [lockOf,State.setLock]

theorem setSessionLock_lockOf (s : State) (key : String) (lock : ReentrantLock ℕ) :
    lockOf (s.setSessionLock key lock) = Function.update (lockOf s) (.session key) lock := by
  funext other
  rcases other with ⟨cache,key'⟩ | sessionId
  · simp [lockOf,State.setSessionLock]
  · by_cases same : sessionId = key
    · subst same
      simp [lockOf,State.setSessionLock]
    · simp [lockOf,State.setSessionLock,same]

private theorem acquires {c : Call} {key : Key} (is : callAct c = some (.acquire key)) :
    (∃ cache k, c = .machine (.lock cache k) ∧ key = .machine cache k) ∨
      ∃ sessionId, c = .lockSession sessionId ∧ key = .session sessionId := by
  cases c with
  | machine op =>
    cases op with
    | lock cache k =>
      cases is
      exact .inl ⟨cache,k,rfl,rfl⟩
    | _ => cases is
  | lockSession sessionId =>
    cases is
    exact .inr ⟨sessionId,rfl,rfl⟩
  | _ => cases is

theorem releases {c : Call} {key : Key} (is : callAct c = some (.release key)) :
    (∃ cache k, c = .machine (.unLock cache k) ∧ key = .machine cache k) ∨
      ∃ sessionId, c = .unlockSession sessionId ∧ key = .session sessionId := by
  cases c with
  | machine op =>
    cases op with
    | unLock cache k =>
      cases is
      exact .inl ⟨cache,k,rfl,rfl⟩
    | _ => cases is
  | unlockSession sessionId =>
    cases is
    exact .inr ⟨sessionId,rfl,rfl⟩
  | _ => cases is

private theorem tables_serve {op : Op} (other : lockAct op = none) (id : ℕ) (s : State) (env : Env) :
    ∃ t answer, State.serveMachine id s op env = some (t,answer) ∧ lockOf t = lockOf s := by
  have notes : lockOf (s.note id op) = lockOf s := by cases op <;> rfl
  have noLock : isLock op = false := by
    cases op with
    | lock | unLock => cases other
    | _ => rfl
  obtain ⟨tables,answer,served⟩ : ∃ tables answer, s.tables.serve op env = some (tables,answer) := by
    unfold Tables.serve
    split
    · exact ⟨_,_,rfl⟩
    · split
      · exact ⟨_,_,rfl⟩
      · exact ⟨_,_,rfl⟩
  rw [serveMachine_other noLock,served]
  cases answer with
  | ok a => exact ⟨_,_,rfl,notes⟩
  | error e => exact ⟨_,_,rfl,rfl⟩

theorem locks_serve : Locks callAct lockOf State.serve := by
  refine ⟨fun {c key} is id s world => ?_,fun {c key} is id s world lock given => ?_,fun {c} is id s world => ?_⟩
  · obtain ⟨cache,k,rfl,rfl⟩ | ⟨sessionId,rfl,rfl⟩ := acquires is
    · refine ⟨fun lock taken => ⟨s.setLock cache k lock,(),?_,setLock_lockOf s cache k lock⟩,fun taken => ?_⟩
      · simp only [lockOf] at taken
        simp [State.serve,State.serveMachine,taken]
      · simp only [lockOf] at taken
        simp [State.serve,State.serveMachine,taken]
    · refine ⟨fun lock taken => ⟨s.setSessionLock sessionId lock,(),?_,setSessionLock_lockOf s sessionId lock⟩,fun taken => ?_⟩
      · simp only [lockOf] at taken
        simp [State.serve,taken]
      · simp only [lockOf] at taken
        simp [State.serve,taken]
  · obtain ⟨cache,k,rfl,rfl⟩ | ⟨sessionId,rfl,rfl⟩ := releases is
    · refine ⟨s.setLock cache k lock,(),?_,setLock_lockOf s cache k lock⟩
      simp only [lockOf] at given
      simp [State.serve,State.serveMachine,given]
    · refine ⟨s.setSessionLock sessionId lock,(),?_,setSessionLock_lockOf s sessionId lock⟩
      simp only [lockOf] at given
      simp [State.serve,given]
  · cases c with
    | machine op => exact tables_serve is id s world.env
    | lockSession sessionId | unlockSession sessionId => cases is
    | getSessionMainsByStatus _ | updateSessionMain _ | getServerNode _ | killJobContainers _ _ _ | resourceDispatch _ =>
      simp only [State.serve]
      split
      · exact ⟨_,_,rfl,rfl⟩
      · exact ⟨_,_,rfl,rfl⟩
    | nodesOf _ | overdue | contextLeft => exact ⟨s,_,rfl,rfl⟩

theorem locked (info : MetaInfo) {p : Run} (reached : (system info).Reachable p) :
    ∃ held, p.Locked callAct level lockOf held :=
  Pool.Locked.reachable locks_serve (fun request => (program_ordered info request).orderly.mono fun _ _ ends => ends.1)
    (by rintro _ ⟨tables,rfl⟩ (_ | _) <;> rfl) reached

/-- However the calls of the requests that have come in are served, and whichever of them fail, all
requests end, and then no lock is owned: nobody waits in a circle. -/
theorem all_end (info : MetaInfo) {p : Run} (reached : (system info).Reachable p) :
    ((system info).restrict Pool.serving).Inevitable
      (fun q => q.Quiet ∧ ∀ key, (lockOf q.shared key).owner = none) p :=
  Pool.inevitable_quiet {} locks_serve level_lt
    (fun request => (program_ordered info request).orderly.mono fun _ _ ends => ends.1)
    (by rintro _ ⟨tables,rfl⟩ (_ | _) <;> rfl) reached

end Eggroll.Cluster.LockOrder
