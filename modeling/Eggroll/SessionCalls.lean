import Eggroll.SessionAtomicity

/-! The calls that the programs of the state machines can make. What reads, and what changes
processors, makes quiet calls for the most part; a creation also inserts. -/
namespace Eggroll.Cluster
open Library
open Program hiding call

/-- The calls that insert no row of a session, processor or resource and neither read nor
write a session or its lock. -/
def quiet : Op → Bool
  | .lock .session _ | .unLock .session _ | .getSession _ | .saveSession _ | .updateSession _ _ | .saveProcessor _
  | .saveResource _ | .listHealthyNodes | .submit (.startContainers _ _) => false
  | _ => true

variable {Allowed : Op → Prop}

theorem call_makes {op : Op} (one : Allowed op) : (call op).Makes Allowed fun _ => True := Program.Makes.perform one

/-- A handler that makes only such calls behind its line. -/
structure MakingHandler {T : Type} (Allowed : Op → Prop) (handler : StateHandler T) (P : T → Prop)
    (pre des : String) : Prop where
  prepare : ∀ context t, (handler.prepare context t pre des).Makes Allowed fun prepared => P prepared.2
  handle : ∀ context t, P t → (handler.handle context t pre des).Makes Allowed fun _ => True
  submit : ∀ context t, Allowed (.submit (handler.asynPostHandle context t))

section
variable {T : Type} {context : Context} {pre des : String}

private theorem submitPost_makes {handler : StateHandler T} {P : T → Prop} (making : MakingHandler Allowed handler P pre des)
    (result : Context × T) : (AbstractStateMachine.submitPost handler result).Makes Allowed fun _ => True := by
  unfold AbstractStateMachine.submitPost
  split
  · exact .bind (call_makes (making.submit _ _)) fun _ _ => .pure trivial
  · exact .pure trivial

theorem locked_makes {handler : StateHandler T} {P : T → Prop} (making : MakingHandler Allowed handler P pre des) (t : T) :
    (AbstractStateMachine.locked handler context t pre des false).Makes Allowed fun _ => True := by
  refine .bind (making.prepare context t) fun prepared holds => ?_
  split
  · exact .pure trivial
  · refine .bind (Q := fun _ => True) (.bind (making.handle _ _ holds) fun _ _ => .pure trivial) fun result _ => ?_
    exact submitPost_makes making result

theorem changeStatus_makes {machine : AbstractStateMachine T} {t : T} {R : (Context × T) × String → Prop}
    (lock : ∀ key, Allowed (.lock machine.cache key)) (unLock : ∀ key, Allowed (.unLock machine.cache key))
    (line : (machine.buildStateChangeLine context t pre des).Makes Allowed R)
    (handlers : ∀ built, R built → ∀ handler, machine.handler built.2 = some handler →
      ∃ P, MakingHandler Allowed handler P pre des) :
    (machine.changeStatus context t pre des false).Makes Allowed fun _ => True := by
  refine .bind line fun built holds => ?_
  cases given : machine.handler built.2 with
  | none => exact .raise
  | some handler =>
    obtain ⟨P,making⟩ := handlers built holds handler given
    exact .tryFinally (.bind (call_makes (lock _)) fun _ _ => locked_makes making _) (call_makes (unLock _))

end

/-- The calls by which the machine of resources changes rows that there are. -/
def ofResources : Op → Bool
  | .lock .resource _ | .unLock .resource _ | .lock .nodeResource _ | .unLock .nodeResource _ | .listResources _
  | .getNodeResource _ _ | .updateNodeResource _ | .updateResource _ _ | .submit (.countNodeResource _) => true
  | _ => false

theorem quiet_ofResources {op : Op} (own : ofResources op = true) : quiet op = true := by
  unfold ofResources at own
  split at own
  case h_10 => cases own
  all_goals rfl

section
variable {context : Context} {pre des : String} (resourcely : ∀ op, ofResources op = true → Allowed op)
include resourcely

private theorem resourcely_makes {op : Op} (own : ofResources op = true) : (call op).Makes Allowed fun _ => True :=
  call_makes (resourcely op own)

private theorem updateAll_makes (rows : List NodeResource) : (updateAll rows).Makes Allowed fun _ => True := by
  induction rows with
  | nil => exact .pure trivial
  | cons row rest ih => exact .bind (resourcely_makes resourcely rfl) fun _ _ => ih

private theorem getNodeResource_makes (resourceMap : List NodeResource) (serverNodeId : Int) (resourceType : String) :
    (getNodeResource resourceMap serverNodeId resourceType).Makes Allowed fun _ => True := by
  unfold getNodeResource
  split
  · exact .pure trivial
  · refine .bind (resourcely_makes resourcely rfl) fun found _ => ?_
    cases found with
    | some row => exact .pure trivial
    | none => exact .raise

private theorem eachResource_makes (change : NodeResource → ErResource → NodeResource) (serverNodeId : Int)
    (resourceMap : List NodeResource) (resources : List ErResource) :
    (eachResource change serverNodeId resourceMap resources).Makes Allowed fun _ => True := by
  induction resources generalizing resourceMap with
  | nil => exact .pure trivial
  | cons resource rest ih =>
    exact .bind (getNodeResource_makes resourcely _ _ _) fun _ _ => .bind (updateAll_makes resourcely _) fun _ _ => ih _

private theorem updateResources_makes (desState : String) (resources : List ErResource) :
    (updateResources desState resources).Makes Allowed fun _ => True := by
  induction resources with
  | nil => exact .pure trivial
  | cons resource rest ih => exact .bind (resourcely_makes resourcely rfl) fun _ _ => ih

omit resourcely in
private theorem saveResources_makes (inserts : ∀ row, Allowed (.saveResource row)) (erProcessor : ErProcessor)
    (resources : List ErResource) : (saveResources erProcessor resources).Makes Allowed fun _ => True := by
  induction resources with
  | nil => exact .pure trivial
  | cons resource rest ih => exact .bind (call_makes (inserts _)) fun _ _ => ih

private theorem changeResource_makes {change : NodeResource → ErResource → NodeResource} {erProcessor : ErProcessor}
    {rows : Change Unit} (makes : rows.Makes Allowed fun _ => True) :
    (changeResource change erProcessor rows).Makes Allowed fun _ => True :=
  .bind (resourcely_makes resourcely rfl) fun _ _ =>
    .tryFinally (.bind (eachResource_makes resourcely _ _ _ _) fun _ _ => makes) (resourcely_makes resourcely rfl)

private theorem onStateLine_makes {data : ErProcessor} {line : String}
    (inserts : line = "init_pre_allocated" → ∀ row, Allowed (.saveResource row)) :
    (onStateLine data line).Makes Allowed fun _ => True := by
  unfold onStateLine
  split
  · exact changeResource_makes resourcely (saveResources_makes (inserts rfl) _ _)
  · exact changeResource_makes resourcely (updateResources_makes resourcely _ _)
  · exact changeResource_makes resourcely (updateResources_makes resourcely _ _)
  · exact changeResource_makes resourcely (updateResources_makes resourcely _ _)
  · exact .pure trivial

def Keeps (context : Context) (data : ErProcessor) (changed : Context × ErProcessor) : Prop :=
  changed.1.processorInDb = context.processorInDb ∧ changed.2.id = data.id

omit resourcely in
private theorem loadResources_keeps (data : ErProcessor) (lists : ∀ processorId, Allowed (.listResources processorId)) :
    (loadResources data).Makes Allowed fun loaded => loaded.id = data.id := by
  unfold loadResources
  split
  · exact .bind (call_makes (lists _)) fun _ _ => .pure rfl
  · exact .pure rfl

private theorem resource_makes (inserts : pre ++ "_" ++ des = "init_pre_allocated" → ∀ row, Allowed (.saveResource row))
    (data : ErProcessor) :
    (resourceStateMechine.changeStatus context data pre des false).Makes Allowed (Keeps context data) := by
  refine .bind (Q := fun built => built = ((context,data),pre ++ "_" ++ des)) (.pure rfl) ?_
  rintro _ rfl
  simp only [resourceStateMechine]
  split
  · exact .raise
  · rename_i given
    split at given
    · cases given
      refine .tryFinally (.bind (resourcely_makes resourcely rfl) fun _ _ => ?_) (resourcely_makes resourcely rfl)
      refine .bind (Q := fun prepared => prepared = (context,data)) (.pure rfl) ?_
      rintro _ rfl
      split
      · exact .pure ⟨rfl,rfl⟩
      refine .bind (Q := Keeps context data) ?_ fun result kept => ?_
      · refine .bind (Q := Keeps context data) ?_ fun result kept => .pure kept
        exact .bind (loadResources_keeps data fun _ => resourcely _ rfl) fun loaded same =>
          .bind (onStateLine_makes resourcely inserts) fun _ _ => .pure ⟨rfl,same⟩
      · unfold AbstractStateMachine.submitPost
        split
        · exact .bind (resourcely_makes resourcely rfl) fun _ _ => .pure kept
        · exact .pure kept
    · cases given

theorem resourceIfNeeded_makes (useResourceDispatch : Bool)
    (inserts : pre ++ "_" ++ des = "init_pre_allocated" → ∀ row, Allowed (.saveResource row)) (data : ErProcessor) :
    (changeResourceIfNeeded useResourceDispatch context data pre des).Makes Allowed (Keeps context data) := by
  unfold changeResourceIfNeeded
  split
  · exact resource_makes resourcely inserts data
  · exact .pure ⟨rfl,rfl⟩

end

section
variable {context : Context} {pre des : String} (quietly : ∀ op, quiet op = true → Allowed op)
include quietly

private theorem quiet_makes {op : Op} (still : quiet op = true) : (call op).Makes Allowed fun _ => True :=
  call_makes (quietly op still)

theorem processorPrepare_makes (context : Context) (data : ErProcessor) (pre des : String) :
    (processorPrepare context data pre des).Makes Allowed fun _ => True := by
  unfold processorPrepare
  cases context.processorInDb with
  | some processorInDb => exact .pure trivial
  | none =>
    refine .bind (quiet_makes quietly rfl) fun found _ => ?_
    cases found with
    | some row => exact .pure trivial
    | none => exact .pure trivial

private theorem ignored_makes (pre des : String) :
    MakingHandler Allowed processorStateIgnoreHandler (fun _ => True) pre des :=
  ⟨fun _ _ => processorPrepare_makes quietly _ _ pre des,fun _ _ _ => .pure trivial,fun _ _ => quietly _ rfl⟩

theorem processorChange_makes (useResourceDispatch : Bool) (data : ErProcessor)
    (handlers : ∀ stored, ∃ P, MakingHandler Allowed (processorHandler useResourceDispatch (stored ++ "_" ++ des)) P "" des) :
    ((processorStateMachine useResourceDispatch).changeStatus context data "" des false).Makes Allowed fun _ => True := by
  refine changeStatus_makes (R := fun built => ∃ stored, built.2 = stored ++ "_" ++ des) (fun _ => quietly _ rfl)
    (fun _ => quietly _ rfl) ?_ ?_
  · exact .bind (quiet_makes quietly rfl) fun found _ => .pure ⟨_,rfl⟩
  · rintro built ⟨stored,is⟩ handler given
    cases given
    rw [is]
    exact handlers stored

theorem processorEnd_makes (useResourceDispatch : Bool) (ends : des = "KILLED" ∨ des = "STOPPED") (data : ErProcessor) :
    ((processorStateMachine useResourceDispatch).changeStatus context data "" des false).Makes Allowed fun _ => True := by
  refine processorChange_makes quietly useResourceDispatch data fun stored => ⟨fun _ => True,?_⟩
  rw [processorHandler_end useResourceDispatch stored ends]
  have resourcely : ∀ op, ofResources op = true → Allowed op := fun op own => quietly op (quiet_ofResources own)
  split
  · refine ⟨fun _ _ => .pure trivial,fun _ data _ => ?_,fun _ _ => quietly _ rfl⟩
    refine .bind (quiet_makes quietly rfl) fun _ _ =>
      .bind (resourceIfNeeded_makes resourcely _ (fun same => absurd same (by decide)) data) fun changed _ => ?_
    refine .bind (quiet_makes quietly rfl) fun found _ => ?_
    cases found with
    | some row => exact .pure trivial
    | none => exact .raise
  split
  · refine ⟨fun _ _ => processorPrepare_makes quietly _ _ "" des,fun _ data _ => ?_,fun _ _ => quietly _ rfl⟩
    exact .bind (quiet_makes quietly rfl) fun _ _ =>
      (resourceIfNeeded_makes resourcely _ (fun same => absurd same (by decide)) data).mono fun _ _ => trivial
  · exact ignored_makes quietly "" des

omit quietly in
theorem changeEach_makes {info : MetaInfo}
    (each : ∀ context processor, ((processorStateMachine info.useResourceDispatch).changeStatus context processor "" des
      false).Makes Allowed fun _ => True) (processors : List ErProcessor) :
    (changeEach info des context processors).Makes Allowed fun _ => True := by
  induction processors generalizing context with
  | nil => exact .pure trivial
  | cons processor rest ih => exact .bind (each context processor) fun _ _ => .bind ih fun _ _ => .pure trivial

end

/-- What `getSession` goes on with behind the row of the session. -/
def behindRow (sessionId : String) (withProcessor withOption withResource : Bool) :
    Option SessionMain → Change (Option ErSessionMeta)
  | none => pure none
  | some row => do
    let processors ← if withProcessor then getProcessorBySession sessionId withResource else pure []
    let options ← if withOption then call (.listOptions sessionId) else pure []
    pure (some { row.toErSessionMeta with
      processors := processors
      options := options.foldl putOption [] })

theorem getSession_eq (sessionId : String) (withProcessor withOption withResource : Bool) :
    getSession sessionId withProcessor withOption withResource =
      call (.getSession sessionId) >>= behindRow sessionId withProcessor withOption withResource := by
  refine congrArg (Program.call _) (funext fun answer => ?_)
  cases answer with
  | ok main => cases main with
    | some row => rfl
    | none => rfl
  | error e => rfl

section
variable (quietly : ∀ op, quiet op = true → Allowed op)
include quietly

private theorem withResources_makes (processors : List ErProcessor) : (withResources processors).Makes Allowed fun _ => True := by
  induction processors with
  | nil => exact .pure trivial
  | cons processor rest ih => exact .bind (quiet_makes quietly rfl) fun _ _ => .bind ih fun _ _ => .pure trivial

private theorem getProcessorBySession_makes (sessionId : String) (withResource : Bool) :
    (getProcessorBySession sessionId withResource).Makes Allowed fun _ => True := by
  refine .bind (quiet_makes quietly rfl) fun _ _ => .bind (quiet_makes quietly rfl) fun rows _ => ?_
  cases withResource with
  | true => exact withResources_makes quietly _
  | false => exact .pure trivial

theorem behindRow_row (sessionId : String) (withProcessor withOption withResource : Bool) (main : Option SessionMain) :
    (behindRow sessionId withProcessor withOption withResource main).Makes Allowed fun found =>
      ∃ processors options, found = main.map fun row =>
        { row.toErSessionMeta with processors := processors, options := options } := by
  cases main with
  | none => exact .pure ⟨[],[],rfl⟩
  | some row =>
    have options : (call (.listOptions sessionId)).Makes Allowed fun _ => True := quiet_makes quietly rfl
    have processors := getProcessorBySession_makes quietly sessionId withResource
    cases withProcessor with
    | true =>
      refine processors.bind fun _ _ => ?_
      cases withOption with
      | true => exact options.bind fun _ _ => .pure ⟨_,_,rfl⟩
      | false => exact .pure ⟨_,_,rfl⟩
    | false =>
      refine .bind (Q := fun _ => True) (.pure trivial) fun _ _ => ?_
      cases withOption with
      | true => exact options.bind fun _ _ => .pure ⟨_,_,rfl⟩
      | false => exact .pure ⟨_,_,rfl⟩

private theorem behindRow_makes (sessionId : String) (withProcessor withOption withResource : Bool) (main : Option SessionMain) :
    (behindRow sessionId withProcessor withOption withResource main).Makes Allowed
      fun found => found.map ErSessionMeta.status = main.map SessionMain.status := by
  refine (behindRow_row quietly sessionId withProcessor withOption withResource main).mono ?_
  rintro _ ⟨processors,options,rfl⟩
  rw [Option.map_map]
  rfl

variable (looks : ∀ sessionId, Allowed (.getSession sessionId))
include looks

theorem getSession_makes (sessionId : String) (withProcessor withOption withResource : Bool) :
    (getSession sessionId withProcessor withOption withResource).Makes Allowed fun _ => True := by
  rw [getSession_eq]
  refine .bind (call_makes (looks _)) fun main _ => ?_
  exact (behindRow_makes quietly sessionId withProcessor withOption withResource main).mono fun _ _ => trivial

omit quietly looks in
theorem notNull_makes {T : Type} (found : Option T) : (notNull found).Makes Allowed fun given => found = some given := by
  cases found with
  | some t => exact .pure rfl
  | none => exact .raise

theorem found_makes (sessionId : String) (withProcessor withOption withResource : Bool) :
    (getSession sessionId withProcessor withOption withResource >>= notNull).Makes Allowed fun _ => True :=
  .bind (getSession_makes quietly looks _ _ _ _) fun found _ => (notNull_makes found).mono fun _ _ => trivial

omit quietly looks in
private theorem isOverState_makes (status : String) : (isOverState status).Makes Allowed fun _ => True := by
  unfold isOverState
  split
  · exact .pure trivial
  split
  · exact .pure trivial
  split
  · exact .raise
  · exact .raise

theorem checkSessionRpcReady_makes (sessionId : String) (rounds : ℕ) :
    (checkSessionRpcReady sessionId rounds).Makes Allowed fun _ => True := by
  induction rounds with
  | zero => exact .pure trivial
  | succ rounds ih =>
    refine .bind (getSession_makes quietly looks _ _ _ _) fun cur _ => ?_
    cases cur with
    | none => exact .pure trivial
    | some cur =>
      refine .bind (isOverState_makes _) fun over_ _ => ?_
      split
      · exact .pure trivial
      split
      · exact ih
      · exact .pure trivial

end

end Eggroll.Cluster
