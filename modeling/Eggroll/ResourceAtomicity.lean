import Eggroll.ChangeCalls

/-! When a status change that raises leaves the tables as they were: the machine of resources,
what its lines write and what can still fail after it. -/
namespace Eggroll.Cluster
open Library
open Program hiding call

variable {s : Tables}

theorem stays (p : Change α) : p.Stays Tables.serve (fun _ => True) := by
  refine stays_of_service (fun s op => ?_) p
  cases fails : Tables.failure op with
  | some e => exact ⟨{ fails := true },.error e,by simp [Tables.serve,fails]⟩
  | none =>
    refine ⟨{},.ok (s.answer {} op),?_⟩
    cases op <;> first | rfl | cases fails

namespace AbstractStateMachine
variable {T : Type} {machine : AbstractStateMachine T} {handler : StateHandler T} {context : Context} {t : T}
  {pre des : String} {callback : Bool} {built : (Context × T) × String}

def finish (handler : StateHandler T) (callback : Bool) (result : Context × T) : Change (Context × T) := do
  if callback then Cluster.call .callback
  submitPost handler result

private theorem transactionHandle_submitPost : (transactionHandle handler context t pre des callback >>= submitPost handler) =
    (handler.handle context t pre des >>= finish handler callback) := by
  simp only [transactionHandle,bind_assoc]
  refine congrArg _ (funext fun result => ?_)
  cases callback <;> simp [finish]

def goesOn (callback : Bool) (context : Context) : Prop :=
  callback ∨ context.openAsynPostHandle ∧ context.isBreak = false

private theorem finish_still {result : Context × T} : (finish handler callback result).Still Tables.serve (fun _ => True) s := by
  have post : (submitPost handler result).Still Tables.serve (fun _ => True) s := by
    unfold submitPost
    split
    · exact (call_still rfl).bind (fun _ _ => trivial) fun _ _ => .pure trivial
    · exact .pure trivial
  unfold finish
  cases callback with
  | true => exact (call_still rfl).bind (fun _ _ => trivial) fun _ _ => post
  | false => exact post

private theorem finish_stays {result : Context × T} (on : goesOn callback result.1) :
    (finish handler callback result).Stays Tables.serve Raised := by
  unfold finish
  cases callback with
  | true => exact (call_falls rfl).bind (fun _ _ => trivial) (fun _ raised => raised.elim)
  | false =>
    obtain ⟨⟨⟩⟩ | ⟨opened,unbroken⟩ := on
    simp only [submitPost,opened,unbroken]
    exact (call_falls rfl).bind (fun _ _ => trivial) (fun _ raised => raised.elim)

private theorem finish_silent {result : Context × T} (on : ¬ goesOn callback result.1) :
    finish handler callback result = pure result := by
  unfold goesOn at on
  push Not at on
  have plain : (!result.1.isBreak && result.1.openAsynPostHandle) = false := by
    cases opened : result.1.openAsynPostHandle with
    | false => simp
    | true => simpa using on.2 opened
  cases callback with
  | true => exact absurd rfl on.1
  | false => simp [finish,submitPost,plain]

theorem handled_atomic (still : (handler.handle context t pre des).Still Tables.serve (fun _ => True) s) :
    (handler.handle context t pre des >>= finish handler callback).Atomic Tables.serve s :=
  .bind still fun _ _ => finish_still.atomic

theorem handled_spoilt {Q : Except Failure (Context × T) → Prop}
    (altered : (handler.handle context t pre des).Alters Tables.serve Q s)
    (on : ∀ result, Q (.ok result) → goesOn callback result.1) :
    ¬ (handler.handle context t pre des >>= finish handler callback).Atomic Tables.serve s :=
  not_atomic.mpr (altered.now (fun _ _ => trivial) fun result holds => finish_stays (on result holds))

private theorem handled_once (atomic : (handler.handle context t pre des).Atomic Tables.serve s)
    (off : ∀ u v result, (handler.handle context t pre des).Yields Tables.serve u v (.ok result) →
      ¬ goesOn callback result.1) :
    (handler.handle context t pre des >>= finish handler callback).Atomic Tables.serve s := by
  intro v e ends
  rcases yields_bind.mp ends with ⟨u,result,first,second⟩ | ⟨_,first,_⟩
  · rw [finish_silent (off s u result first)] at second
    cases second.2
  · exact atomic v _ first

theorem once_atomic {op : Op} {result : Ans op → Context × T}
    (is : handler.handle context t pre des = Cluster.call op >>= fun a => pure (result a))
    (same : ∀ a, (result a).1 = context) :
    (handler.handle context t pre des >>= finish handler callback).Atomic Tables.serve s ↔
      (s.refuses op ∨ s.write op = s) ∨ ¬ goesOn callback context := by
  constructor
  · intro atomic
    by_contra undone
    push Not at undone
    obtain ⟨⟨granted,altered⟩,on⟩ := undone
    refine handled_spoilt (Q := fun result => ∀ a, result = .ok a → a.1 = context) ?_ (fun _ kept => ?_) atomic
    · rw [is]
      exact (call_alters (Q := fun _ => True) (by simpa using granted) altered trivial).now
        (fun e _ => vacuous e) fun a _ => .pure fun b is => by cases is; exact same a
    · rw [kept _ rfl]
      exact on
  · rintro ((refused | unaltered) | done)
    · apply handled_atomic
      rw [is]
      intro t last ends
      rcases yields_bind.mp ends with ⟨u,a,first,_⟩ | ⟨e,first,_⟩
      · rcases yields_call.mp first with ⟨-,_,⟨⟩,-⟩ | ⟨granted,-⟩
        rw [refused] at granted
        cases granted
      · rcases yields_call.mp first with ⟨same,-⟩ | ⟨-,-,_,⟨⟩⟩
        exact ⟨same,trivial⟩
    · apply handled_atomic
      rw [is]
      exact (call_still unaltered).bind (fun _ _ => trivial) fun _ _ => .pure trivial
    · apply handled_once
      · rw [is]
        exact call_atomic.then_sure fun _ _ _ _ ends => nomatch ends.2
      · intro u v result ends
        rw [is] at ends
        rcases yields_bind.mp ends with ⟨w,a,_,second⟩ | ⟨e,_,is⟩
        · obtain ⟨-,is⟩ := yields_pure.mp second
          cases is
          rw [same a]
          exact done
        · cases is

theorem changeStatus_atomic (line : (machine.buildStateChangeLine context t pre des).Reads Tables.serve s built)
    (found : machine.handler built.2 = some handler) :
    (machine.changeStatus context t pre des callback).Atomic Tables.serve s ↔
      (locked handler built.1.1 built.1.2 pre des callback).Atomic Tables.serve s := by
  unfold changeStatus
  rw [atomic_of_reads line,found]
  dsimp only
  rw [atomic_tryFinally (fun _ => unLock_still _ _) (unLock_stays _ _)]
  exact atomic_of_reads (reads_lock _ _)

theorem locked_atomic {prepared : Context × T} (prepares : (handler.prepare context t pre des).Reads Tables.serve s prepared) :
    (locked handler context t pre des callback).Atomic Tables.serve s ↔ prepared.1.isBreak ∨
      (handler.handle prepared.1 prepared.2 pre des >>= finish handler callback).Atomic Tables.serve s := by
  unfold locked
  rw [atomic_of_reads prepares,← transactionHandle_submitPost]
  cases prepared.1.isBreak with
  | true => simpa using (Still.pure (Q := fun _ => True) trivial).atomic
  | false => simp

theorem locked_atomic_of_still {Q : Except Failure (Context × T) → Prop}
    (prepares : (handler.prepare context t pre des).Still Tables.serve Q s) :
    (locked handler context t pre des callback).Atomic Tables.serve s ↔
      ∀ prepared, (handler.prepare context t pre des).Yields Tables.serve s s (.ok prepared) →
        prepared.1.isBreak ∨
          (handler.handle prepared.1 prepared.2 pre des >>= finish handler callback).Atomic Tables.serve s := by
  unfold locked
  rw [atomic_of_still prepares]
  refine forall₂_congr fun prepared _ => ?_
  rw [← transactionHandle_submitPost]
  cases prepared.1.isBreak with
  | true => simpa using (Still.pure (Q := fun _ => True) trivial).atomic
  | false => simp

theorem finish_yields {result : Context × T} :
    (finish handler callback result).Yields Tables.serve s s (.ok result) := by
  have post : (submitPost handler result).Yields Tables.serve s s (.ok result) := by
    unfold submitPost
    split
    · exact yields_bind.mpr (.inl ⟨s,(),call_succeeds (s := s) {} rfl,rfl,rfl⟩)
    · exact ⟨rfl,rfl⟩
  cases callback with
  | true => exact yields_bind.mpr (.inl ⟨s,(),call_succeeds (s := s) {} rfl,post⟩)
  | false => exact post

theorem changeStatus_yields {prepared result : Context × T}
    (line : (machine.buildStateChangeLine context t pre des).Reads Tables.serve s built)
    (found : machine.handler built.2 = some handler)
    (prepares : (handler.prepare built.1.1 built.1.2 pre des).Reads Tables.serve s prepared)
    (unbroken : prepared.1.isBreak = false)
    (reads : (handler.handle prepared.1 prepared.2 pre des).Yields Tables.serve s s (.ok result)) :
    (machine.changeStatus context t pre des callback).Yields Tables.serve s s (.ok result) := by
  refine yields_bind.mpr (.inl ⟨s,built,line.yields,?_⟩)
  rw [found]
  have inside : (locked handler built.1.1 built.1.2 pre des callback).Yields Tables.serve s s (.ok result) := by
    refine yields_bind.mpr (.inl ⟨s,prepared,prepares.yields,?_⟩)
    rw [unbroken,transactionHandle_submitPost]
    exact yields_bind.mpr (.inl ⟨s,result,reads,finish_yields⟩)
  refine yields_andThen.mpr ⟨s,_,yields_bind.mpr (.inl ⟨s,(),(reads_lock _ _).yields,inside⟩),?_⟩
  exact yields_andThen.mpr ⟨s,.ok (),call_succeeds (s := s) {} rfl,rfl,rfl⟩

theorem changeStatus_alters {prepared : Context × T}
    (line : (machine.buildStateChangeLine context t pre des).Reads Tables.serve s built)
    (found : machine.handler built.2 = some handler)
    (prepares : (handler.prepare built.1.1 built.1.2 pre des).Reads Tables.serve s prepared)
    (unbroken : prepared.1.isBreak = false)
    (altered : (handler.handle prepared.1 prepared.2 pre des).Alters Tables.serve (fun _ => True) s) :
    (machine.changeStatus context t pre des callback).Alters Tables.serve (fun _ => True) s := by
  apply Alters.later line.yields
  rw [found]
  refine Alters.tryFinally ?_ (unLock_stays _ _)
  apply Alters.later (reads_lock _ _).yields
  apply Alters.later prepares.yields
  rw [unbroken,transactionHandle_submitPost]
  exact altered.now (fun _ _ => trivial) fun _ _ => stays _

theorem locked_still {prepared : Context × T}
    (prepares : (handler.prepare context t pre des).Reads Tables.serve s prepared)
    (still : (handler.handle prepared.1 prepared.2 pre des).Still Tables.serve (fun _ => True) s) :
    (locked handler context t pre des callback).Still Tables.serve (fun _ => True) s := by
  refine prepares.still.bind (fun _ _ => trivial) fun other same => ?_
  rw [same other rfl]
  split
  · exact .pure trivial
  · rw [transactionHandle_submitPost]
    exact still.bind (fun _ _ => trivial) fun _ _ => finish_still

theorem changeStatus_still (line : (machine.buildStateChangeLine context t pre des).Reads Tables.serve s built)
    (inside : ∀ handler, machine.handler built.2 = some handler →
      (locked handler built.1.1 built.1.2 pre des callback).Still Tables.serve (fun _ => True) s) :
    (machine.changeStatus context t pre des callback).Still Tables.serve (fun _ => True) s := by
  refine line.still.bind (fun _ _ => trivial) fun other same => ?_
  rw [same other rfl]
  split
  case h_1 => exact .raise trivial
  case h_2 handler found =>
    refine Still.tryFinally ?_ (unLock_still _ _)
    exact (reads_lock _ _).still.bind (fun _ _ => trivial) fun _ _ => inside handler found

private theorem changeStatus_falls
    (line : (machine.buildStateChangeLine context t pre des).Stays Tables.serve (fun result => ∀ a, result = .ok a → a = built))
    (inside : ∀ handler, machine.handler built.2 = some handler →
      (locked handler built.1.1 built.1.2 pre des callback).Stays Tables.serve Raised) :
    (machine.changeStatus context t pre des callback).Stays Tables.serve Raised := by
  refine line.bind (fun _ _ => trivial) fun other same => ?_
  rw [same other rfl]
  split
  case h_1 => exact .raise trivial
  case h_2 handler found =>
    refine Stays.tryFinally ?_ (unLock_stays _ _)
    have lock : (call (.lock machine.cache (machine.getLockKey built.1.1 built.1.2))).Stays Tables.serve
        (fun result => result = .ok ()) := fun s => ⟨.ok (),(reads_lock (s := s) _ _).yields,rfl⟩
    refine lock.bind (fun _ is => ?_) fun _ _ => inside handler found
    cases is

private theorem locked_falls {prepared : Context × T} {Q : Except Failure (Context × T) → Prop}
    (prepares : handler.prepare context t pre des = pure prepared) (unbroken : prepared.1.isBreak = false)
    (ends : (handler.handle prepared.1 prepared.2 pre des).Stays Tables.serve Q)
    (on : ∀ result, Q (.ok result) → goesOn callback result.1) :
    (locked handler context t pre des callback).Stays Tables.serve Raised := by
  unfold locked
  rw [prepares,pure_bind,unbroken,transactionHandle_submitPost]
  exact ends.bind (fun _ _ => trivial) fun result holds => finish_stays (on result holds)

/-! A change that begins with a context that is not broken off ends so. -/

def Unbroken (result : Context × T) : Prop := result.1.isBreak = false

private theorem finish_ensures {result : Context × T} (unbroken : Unbroken result) :
    (finish handler callback result).Ensures Tables.serve Unbroken := by
  have post : (submitPost handler result).Ensures Tables.serve Unbroken := by
    unfold submitPost
    split
    · exact .after fun _ => .pure unbroken
    · exact .pure unbroken
  cases callback with
  | true => exact .after fun _ => post
  | false => exact post

theorem locked_ensures (prepares : (handler.prepare context t pre des).Ensures Tables.serve Unbroken)
    (handles : ∀ prepared, Unbroken prepared →
      (handler.handle prepared.1 prepared.2 pre des).Ensures Tables.serve Unbroken) :
    (locked handler context t pre des callback).Ensures Tables.serve Unbroken := by
  refine prepares.bind fun prepared unbroken => ?_
  rw [show prepared.1.isBreak = false from unbroken,transactionHandle_submitPost]
  exact (handles prepared unbroken).bind fun _ => finish_ensures

theorem changeStatus_ensures {P : (Context × T) × String → Prop}
    (line : (machine.buildStateChangeLine context t pre des).Ensures Tables.serve P)
    (inside : ∀ built handler, P built → machine.handler built.2 = some handler →
      (locked handler built.1.1 built.1.2 pre des callback).Ensures Tables.serve Unbroken) :
    (machine.changeStatus context t pre des callback).Ensures Tables.serve Unbroken := by
  refine line.bind fun built known => ?_
  split
  case h_1 => exact .raise
  case h_2 handler found => exact .tryFinally (.after fun _ => inside built handler known found)

end AbstractStateMachine

def Known (s : Tables) (serverNodeId : Int) (resourceMap : List NodeResource) : Prop :=
  ∀ row ∈ resourceMap, s.nodeResource serverNodeId row.resourceType = some row ∧ s.write (.updateNodeResource row) = s

/-- Some row of the node is altered. The change comes to a resource only when the rows of those
before it are there. -/
def altersNode (s : Tables) (change : NodeResource → ErResource → NodeResource) (serverNodeId : Int) :
    List ErResource → Prop
  | [] => False
  | resource :: rest => ∃ row, s.nodeResource serverNodeId resource.resourceType = some row ∧
      (s.write (.updateNodeResource (change row resource)) ≠ s ∨ altersNode s change serverNodeId rest)

def allFound (s : Tables) (serverNodeId : Int) (resources : List ErResource) : Prop :=
  ∀ resource ∈ resources, ∃ row, s.nodeResource serverNodeId resource.resourceType = some row

theorem nodeResource_spec {serverNodeId : Int} {resourceType : String} {row : NodeResource}
    (found : s.nodeResource serverNodeId resourceType = some row) :
    row ∈ s.nodeResources ∧ row.serverNodeId = serverNodeId ∧ row.resourceType = resourceType := by
  have holds := List.find?_some found
  simp only [decide_eq_true_eq] at holds
  exact ⟨List.mem_of_find?_eq_some found,holds⟩

private theorem stored_of_unaltered {row other : NodeResource} (member : row ∈ s.nodeResources)
    (sameNode : row.serverNodeId = other.serverNodeId) (sameType : row.resourceType = other.resourceType)
    (unaltered : s.write (.updateNodeResource other) = s) : other = row := by
  have rows := congrArg Tables.nodeResources unaltered
  have each := List.map_inj_left.mp (rows.trans (List.map_id _).symm) row member
  simpa [sameNode,sameType] using each

section NodeChange
variable {change : NodeResource → ErResource → NodeResource} {serverNodeId : Int}
  {resourceMap : List NodeResource} {resource : ErResource} {row : NodeResource}

private theorem reads_getNodeResource (known : Known s serverNodeId resourceMap)
    (found : s.nodeResource serverNodeId resource.resourceType = some row) :
    (getNodeResource resourceMap serverNodeId resource.resourceType).Reads Tables.serve s row := by
  unfold getNodeResource
  cases kept : resourceMap.find? fun row => row.resourceType = resource.resourceType with
  | some other =>
    have type : other.resourceType = resource.resourceType := by simpa using List.find?_some kept
    have same := (known other (List.mem_of_find?_eq_some kept)).1
    rw [type,found] at same
    cases same
    exact .pure
  | none =>
    refine .bind (a := s.nodeResource serverNodeId resource.resourceType) (reads_call rfl rfl fun _ => rfl) ?_
    rw [found]
    exact .pure

private theorem getNodeResource_missing (known : Known s serverNodeId resourceMap)
    (missing : s.nodeResource serverNodeId resource.resourceType = none) :
    (getNodeResource resourceMap serverNodeId resource.resourceType).Still Tables.serve Raised s := by
  unfold getNodeResource
  cases kept : resourceMap.find? fun row => row.resourceType = resource.resourceType with
  | some other =>
    have type : other.resourceType = resource.resourceType := by simpa using List.find?_some kept
    have same := (known other (List.mem_of_find?_eq_some kept)).1
    rw [type,missing] at same
    cases same
  | none =>
    refine (call_still rfl).bind (fun _ _ => trivial) fun answer answered => ?_
    obtain ⟨env,rfl⟩ := answered answer rfl
    simp only [Tables.answer,missing]
    exact .raise trivial

private theorem reads_updateAll (known : Known s serverNodeId resourceMap) :
    (updateAll resourceMap).Reads Tables.serve s () := by
  induction resourceMap with
  | nil => exact .pure
  | cons row rest ih =>
    exact .bind (reads_call (known row (by simp)).2 rfl fun _ => rfl) (ih fun other inside => known other (by simp [inside]))

theorem Known.next (keeps : ∀ row resource, (change row resource).serverNodeId = row.serverNodeId ∧
      (change row resource).resourceType = row.resourceType)
    (known : Known s serverNodeId resourceMap)
    (found : s.nodeResource serverNodeId resource.resourceType = some row)
    (unaltered : s.write (.updateNodeResource (change row resource)) = s) :
    Known s serverNodeId (change row resource :: resourceMap.filter fun row => row.resourceType ≠ resource.resourceType) := by
  obtain ⟨member,node,type⟩ := nodeResource_spec found
  have same := stored_of_unaltered member (keeps row resource).1.symm (keeps row resource).2.symm unaltered
  intro other inside
  rcases List.mem_cons.mp inside with rfl | inside
  · refine ⟨?_,unaltered⟩
    rw [same,type]
    exact found
  · exact known other (List.mem_filter.mp inside).1

private theorem eachResource_alters (keeps : ∀ row resource, (change row resource).serverNodeId = row.serverNodeId ∧
      (change row resource).resourceType = row.resourceType) {resources : List ErResource}
    (known : Known s serverNodeId resourceMap) (altered : altersNode s change serverNodeId resources) :
    (eachResource change serverNodeId resourceMap resources).Alters Tables.serve (fun _ => True) s := by
  induction resources generalizing resourceMap with
  | nil => exact altered.elim
  | cons resource rest ih =>
    obtain ⟨row,found,here⟩ := altered
    apply Alters.later (reads_getNodeResource known found).yields
    by_cases now : s.write (.updateNodeResource (change row resource)) = s
    · have next := known.next keeps found now
      exact .later (reads_updateAll next).yields (ih next (here.resolve_left (not_not_intro now)))
    · apply Alters.now (P := fun _ => True)
      · exact (call_alters (Q := fun _ => True) rfl now trivial).now (fun _ _ => trivial) fun _ _ => stays _
      · exact fun _ _ => trivial
      · exact fun _ _ => stays _

private theorem eachResource_unaltered (keeps : ∀ row resource, (change row resource).serverNodeId = row.serverNodeId ∧
      (change row resource).resourceType = row.resourceType) {resources : List ErResource}
    (known : Known s serverNodeId resourceMap) (unaltered : ¬ altersNode s change serverNodeId resources) :
    (eachResource change serverNodeId resourceMap resources).Still Tables.serve
        (fun result => result = .ok () → allFound s serverNodeId resources) s ∧
      (allFound s serverNodeId resources →
        (eachResource change serverNodeId resourceMap resources).Reads Tables.serve s ()) := by
  induction resources generalizing resourceMap with
  | nil => exact ⟨.pure fun _ => by simp [allFound],fun _ => .pure⟩
  | cons resource rest ih =>
    cases found : s.nodeResource serverNodeId resource.resourceType with
    | none =>
      refine ⟨(getNodeResource_missing known found).bind (fun _ _ => nofun) fun _ raised => raised.elim,?_⟩
      intro all
      obtain ⟨row,there⟩ := all resource (by simp)
      rw [found] at there
      cases there
    | some row =>
      have here : s.write (.updateNodeResource (change row resource)) = s :=
        not_not.mp fun altered => unaltered ⟨row,found,.inl altered⟩
      have next := known.next keeps found here
      obtain ⟨still,reads⟩ := ih next fun later => unaltered ⟨row,found,.inr later⟩
      have first := reads_getNodeResource known found
      constructor
      · refine first.still.bind (fun _ _ => nofun) fun other same => ?_
        rw [same other rfl]
        refine (reads_updateAll next).still.bind (fun _ _ => nofun) fun _ _ => still.mono fun result holds ok => ?_
        intro one inside
        rcases List.mem_cons.mp inside with rfl | inside
        · exact ⟨row,found⟩
        · exact holds ok one inside
      · exact fun all => first.bind ((reads_updateAll next).bind (reads fun one inside => all one (by simp [inside])))

end NodeChange

def altersRows (s : Tables) (desState : String) (resources : List ErResource) : Prop :=
  ∃ resource ∈ resources, s.write (.updateResource resource.key desState) ≠ s

private theorem updateResources_alters {desState : String} {resources : List ErResource}
    (altered : altersRows s desState resources) :
    (updateResources desState resources).Alters Tables.serve (fun _ => True) s := by
  induction resources with
  | nil =>
    obtain ⟨resource,⟨⟩,-⟩ := altered
  | cons resource rest ih =>
    by_cases now : s.write (.updateResource resource.key desState) = s
    · obtain ⟨one,inside,other⟩ := altered
      rcases List.mem_cons.mp inside with rfl | inside
      · exact absurd now other
      · exact .later (reads_call now rfl fun _ => rfl).yields (ih ⟨one,inside,other⟩)
    · exact (call_alters (Q := fun _ => True) rfl now trivial).now (fun _ _ => trivial) fun _ _ => stays _

private theorem reads_updateResources {desState : String} {resources : List ErResource}
    (unaltered : ¬ altersRows s desState resources) :
    (updateResources desState resources).Reads Tables.serve s () := by
  induction resources with
  | nil => exact .pure
  | cons resource rest ih =>
    have here : s.write (.updateResource resource.key desState) = s :=
      not_not.mp fun altered => unaltered ⟨resource,by simp,altered⟩
    refine .bind (reads_call here rfl fun _ => rfl) (ih fun later => unaltered ?_)
    obtain ⟨one,inside,altered⟩ := later
    exact ⟨one,by simp [inside],altered⟩

private theorem saveResource_alters (row : ProcessorResource) : s.write (.saveResource row) ≠ s := by
  intro same
  have longer := congrArg (fun t => t.processorResources.length) same
  simp [Tables.write] at longer

private theorem saveResources_alters {erProcessor : ErProcessor} {resources : List ErResource} (some_ : resources ≠ []) :
    (saveResources erProcessor resources).Alters Tables.serve (fun _ => True) s := by
  cases resources with
  | nil => exact absurd rfl some_
  | cons resource rest =>
    exact (call_alters (Q := fun _ => True) rfl (saveResource_alters _) trivial).now (fun _ _ => trivial)
      fun _ _ => stays _

/-- What one of the four services alters: rows of the node and, after these, its own rows. -/
def alters (s : Tables) (change : NodeResource → ErResource → NodeResource) (erProcessor : ErProcessor)
    (rows : Prop) : Prop :=
  altersNode s change erProcessor.serverNodeId erProcessor.resources ∨
    allFound s erProcessor.serverNodeId erProcessor.resources ∧ rows

section Service
variable {change : NodeResource → ErResource → NodeResource} {erProcessor : ErProcessor} {rows : Change Unit}
  {altersRows : Prop}

private theorem changeResource_alters (keeps : ∀ row resource, (change row resource).serverNodeId = row.serverNodeId ∧
      (change row resource).resourceType = row.resourceType)
    (rowsAlter : altersRows → rows.Alters Tables.serve (fun _ => True) s)
    (altered : alters s change erProcessor altersRows) :
    (changeResource change erProcessor rows).Alters Tables.serve (fun _ => True) s := by
  apply Alters.later (reads_lock _ _).yields
  refine Alters.tryFinally ?_ (unLock_stays _ _)
  have known : Known s erProcessor.serverNodeId [] := fun row inside => by cases inside
  by_cases node : altersNode s change erProcessor.serverNodeId erProcessor.resources
  · exact (eachResource_alters keeps known node).now (fun _ _ => trivial) fun _ _ => stays _
  · obtain ⟨all,rest⟩ := altered.resolve_left node
    exact .later ((eachResource_unaltered keeps known node).2 all).yields (rowsAlter rest)

private theorem changeResource_still (keeps : ∀ row resource, (change row resource).serverNodeId = row.serverNodeId ∧
      (change row resource).resourceType = row.resourceType)
    (rowsStill : ¬ altersRows → rows.Still Tables.serve (fun _ => True) s)
    (unaltered : ¬ alters s change erProcessor altersRows) :
    (changeResource change erProcessor rows).Still Tables.serve (fun _ => True) s := by
  apply (reads_lock _ _).still.bind (fun _ _ => trivial)
  refine fun _ _ => Still.tryFinally ?_ (unLock_still _ _)
  have known : Known s erProcessor.serverNodeId [] := fun row inside => by cases inside
  have still := (eachResource_unaltered keeps known fun node => unaltered (.inl node)).1
  exact still.bind (fun _ _ => trivial) fun _ all => rowsStill fun rest => unaltered (.inr ⟨all rfl,rest⟩)

end Service

/-- What a change of resources on a line alters. -/
def altersResources (s : Tables) (line : String) (data : ErProcessor) : Prop :=
  match line with
  | "init_pre_allocated" => alters s .preAllocate data (data.resources ≠ [])
  | "pre_allocated_allocated" => alters s .allocate data (altersRows s "allocated" data.resources)
  | "pre_allocated_allocate_failed" => alters s .preAllocateFail data (altersRows s "return" data.resources)
  | "allocated_return" => alters s .giveBack data (altersRows s "return" data.resources)
  | _ => False

def loaded (s : Tables) (data : ErProcessor) : ErProcessor :=
  if data.resources = [] then s.readResources data else data

private theorem reads_loadResources (data : ErProcessor) : (loadResources data).Reads Tables.serve s (loaded s data) := by
  unfold loadResources loaded
  split
  · exact .bind (reads_call rfl rfl fun _ => rfl) .pure
  · exact .pure

private theorem onStateLine_alters {line : String} {data : ErProcessor} (altered : altersResources s line data) :
    (onStateLine data line).Alters Tables.serve (fun _ => True) s := by
  unfold altersResources at altered
  split at altered
  case h_1 => exact changeResource_alters (fun _ _ => ⟨rfl,rfl⟩) saveResources_alters altered
  case h_2 => exact changeResource_alters (fun _ _ => ⟨rfl,rfl⟩) updateResources_alters altered
  case h_3 => exact changeResource_alters (fun _ _ => ⟨rfl,rfl⟩) updateResources_alters altered
  case h_4 => exact changeResource_alters (fun _ _ => ⟨rfl,rfl⟩) updateResources_alters altered
  case h_5 => exact altered.elim

private theorem onStateLine_still {line : String} {data : ErProcessor} (unaltered : ¬ altersResources s line data) :
    (onStateLine data line).Still Tables.serve (fun _ => True) s := by
  have updates (desState : String) (none : ¬ altersRows s desState data.resources) :
      (updateResources desState data.resources).Still Tables.serve (fun _ => True) s :=
    (reads_updateResources none).still.mono fun _ _ => trivial
  unfold altersResources at unaltered
  split at unaltered
  case h_1 =>
    refine changeResource_still (fun _ _ => ⟨rfl,rfl⟩) (fun none => ?_) unaltered
    rw [not_not.mp none]
    exact .pure trivial
  case h_2 => exact changeResource_still (fun _ _ => ⟨rfl,rfl⟩) (updates _) unaltered
  case h_3 => exact changeResource_still (fun _ _ => ⟨rfl,rfl⟩) (updates _) unaltered
  case h_4 => exact changeResource_still (fun _ _ => ⟨rfl,rfl⟩) (updates _) unaltered
  case h_5 line h1 h2 h3 h4 =>
    unfold onStateLine
    split
    case h_5 => exact .pure trivial
    all_goals contradiction

section Resource
variable {context : Context} {data : ErProcessor} {pre des : String} {callback : Bool}

def Opened (result : Except Failure (Context × ErProcessor)) : Prop :=
  ∀ a, result = .ok a → a.1.openAsynPostHandle ∧ a.1.isBreak = false

private theorem resourceHandler_alters (unbroken : context.isBreak = false)
    (altered : altersResources s (pre ++ "_" ++ des) (loaded s data)) :
    (resourceStateHandler.handle context data pre des).Alters Tables.serve Opened s := by
  apply Alters.later (reads_loadResources data).yields
  have changed := onStateLine_alters altered
  refine changed.now ?_ fun _ _ => .pure ?_
  · intro e _ a is
    cases is
  · intro a is
    cases is
    exact ⟨rfl,unbroken⟩

private theorem resourceHandler_still (unaltered : ¬ altersResources s (pre ++ "_" ++ des) (loaded s data)) :
    (resourceStateHandler.handle context data pre des).Still Tables.serve (fun _ => True) s := by
  refine (reads_loadResources data).still.bind (fun _ _ => trivial) fun other same => ?_
  rw [same other rfl]
  exact (onStateLine_still unaltered).bind (fun _ _ => trivial) fun _ _ => .pure trivial

theorem registered {line : String} {data : ErProcessor} (altered : altersResources s line data) : line ∈ resourceLines := by
  unfold altersResources at altered
  split at altered
  case h_5 => exact altered.elim
  all_goals simp [resourceLines]

/-- A change of resources is atomic if and only if it alters nothing, since its task comes
last and the pool may be full. -/
theorem resource_change_atomic : (resourceStateMechine.changeStatus context data pre des callback).Atomic Tables.serve s ↔
    context.isBreak ∨ ¬ altersResources s (pre ++ "_" ++ des) (loaded s data) := by
  have line : (resourceStateMechine.buildStateChangeLine context data pre des).Reads Tables.serve s
      ((context,data),pre ++ "_" ++ des) := .pure
  by_cases known : pre ++ "_" ++ des ∈ resourceLines
  · have prepares : (resourceStateHandler.prepare context data pre des).Reads Tables.serve s (context,data) := .pure
    rw [AbstractStateMachine.changeStatus_atomic line (if_pos known),AbstractStateMachine.locked_atomic prepares]
    cases broken : context.isBreak with
    | true => simp
    | false =>
      simp only [Bool.false_eq_true,false_or]
      constructor
      · intro atomic altered
        exact AbstractStateMachine.handled_spoilt (resourceHandler_alters broken altered)
          (fun result opened => .inr (opened result rfl)) atomic
      · exact fun unaltered => AbstractStateMachine.handled_atomic (resourceHandler_still unaltered)
  · constructor
    · exact fun _ => .inr fun altered => known (registered altered)
    · intro _
      refine Still.atomic (Q := fun _ => True) (AbstractStateMachine.changeStatus_still line fun handler found => ?_)
      simp [resourceStateMechine,known] at found

theorem resource_change_still (unaltered : ¬ altersResources s (pre ++ "_" ++ des) (loaded s data)) :
    (resourceStateMechine.changeStatus context data pre des callback).Still Tables.serve (fun _ => True) s := by
  have line : (resourceStateMechine.buildStateChangeLine context data pre des).Reads Tables.serve s
      ((context,data),pre ++ "_" ++ des) := .pure
  refine AbstractStateMachine.changeStatus_still line fun handler found => ?_
  simp only [resourceStateMechine] at found
  split at found
  case isTrue =>
    cases found
    exact AbstractStateMachine.locked_still .pure (resourceHandler_still unaltered)
  case isFalse => cases found

theorem resource_change_ensures (unbroken : context.isBreak = false) :
    (resourceStateMechine.changeStatus context data pre des callback).Ensures Tables.serve
      AbstractStateMachine.Unbroken := by
  refine AbstractStateMachine.changeStatus_ensures (P := fun built => built.1.1.isBreak = false) (.pure unbroken)
    fun built handler known found => ?_
  simp only [resourceStateMechine] at found
  split at found
  case isFalse => cases found
  case isTrue =>
    cases found
    exact AbstractStateMachine.locked_ensures (.pure known) fun prepared unbroken =>
      .after fun data => .after fun _ => .pure unbroken

theorem resource_change_falls (unbroken : context.isBreak = false) :
    (resourceStateMechine.changeStatus context data pre des callback).Stays Tables.serve Raised := by
  have line : (resourceStateMechine.buildStateChangeLine context data pre des).Stays Tables.serve
      (fun result => ∀ a, result = .ok a → a = ((context,data),pre ++ "_" ++ des)) :=
    .pure fun a is => (Except.ok.inj is).symm
  refine AbstractStateMachine.changeStatus_falls line fun handler found => ?_
  simp only [resourceStateMechine] at found
  split at found
  case isFalse => cases found
  case isTrue =>
    cases found
    have ends : (resourceStateHandler.handle context data pre des).Stays Tables.serve Opened := by
      refine Stays.bind (stays _) (fun e _ => vacuous e) fun data _ => ?_
      refine Stays.bind (stays _) (fun e _ => vacuous e) fun _ _ => .pure ?_
      intro a is
      cases is
      exact ⟨rfl,unbroken⟩
    exact AbstractStateMachine.locked_falls rfl unbroken ends fun result opened => .inr (opened result rfl)

end Resource

end Eggroll.Cluster
