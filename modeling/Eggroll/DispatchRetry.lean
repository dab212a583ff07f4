import Eggroll.DispatchResidue
import Eggroll.ResourceOutcome

/-! Attempts of the dispatch thread that fail before one succeeds. What is registered in the
end, and what stands in the application then, is what the last attempt gives for the
application as it was submitted, if none that failed came as far as to register. -/
namespace Eggroll.Dispatcher
open Library ResourceApplication ResourceDispatch

/-- No attempt for `a`, submitted as `app₀`, fails with something in the dispatch, and none puts
a processor that holds an index of an earlier one on a node without GPUs. -/
def lasting (a : Nat) (app₀ : ResourceApplication) (s : State) : Act → Bool
  | .dispatcher .raises =>
    match s.pc with
    | .register b _ => b ≠ a ∨ (s.apps b).resourceDispatch = []
    | _ => true
  | .dispatcher _ =>
    match s.pc with
    | .dispatch b nodes => b ≠ a ∨ Clean nodes app₀ (s.apps b)
    | _ => true
  | _ => true

def Touched (app app' : ResourceApplication) : Prop :=
  app' = { app with
    resourceExhaustedStrategy := app'.resourceExhaustedStrategy
    latch := app'.latch
    waitingCount := app'.waitingCount
    status := app'.status }

/-- The last attempt for `a` before `v` had these nodes and this shuffle; since then only
submitters and kill requests have moved. -/
def LastAttempt (setting : Setting) (a : Nat) (s₀ v : State) (nodes : Nodes) (order : List Nat) : Prop :=
  ∃ before u since, (system setting).Run s₀ before u ∧ u.pc = .dispatch a nodes ∧
    (system setting).Run u (.dispatcher (.shuffled order) :: since) v ∧
    ∀ act ∈ since, ∀ answer, act ≠ .dispatcher answer

/-- The processors `refs` of the dispatch, each once, are those that the attempt gives when it is
made on the application as submitted. -/
structure Alone (setting : Setting) (app₀ : ResourceApplication) (nodes : Nodes) (order : List Nat)
    (app : ResourceApplication) (refs : List ProcessorRef) : Prop where
  normal : (dispatch setting order nodes app₀).2 = none
  listed : app.resourceDispatch.map Prod.fst = refs
  same : (dispatched app).Perm (dispatched (dispatch setting order nodes app₀).1)
  consistent : ∀ pair ∈ app.resourceDispatch, Consistent app pair
  ready : Ready nodes app refs
  others : (∀ strategy ∈ placing, app.dispatchStrategy ≠ some strategy) → ∀ i, .requested i ∉ refs

/-- The attempt has been registered, and the session stored as NEW with its processors. -/
def Stored (setting : Setting) (a : Nat) (s₀ s : State) (nodes : Nodes) (order : List Nat) (refs : List ProcessorRef) :
    Prop :=
  ∃ v w after, LastAttempt setting a s₀ v nodes order ∧ (system setting).step v (.dispatcher .ok) = some w ∧
    (system setting).Run w after s ∧
    w.db (s₀.apps a).sessionId = some ⟨.NEW,refs.filterMap (s.apps a).object⟩

/-- What is registered for `a`. -/
def registeredFor (a : Nat) (s : State) : List (Nat × List ProcessorRef) := s.registered.filter fun entry => entry.1 = a

namespace Pc

def registers : Pc → Bool
  | .register _ _ | .unlock _ (.normal _ _) | .refill _ _ _ | .count _ | .remove _ => true
  | _ => false

/-- On the way from the registration of these processors to the end of the queue, or back to the
head of the loop, where the session no longer waits. -/
def finishes (nodes : Nodes) (refs : List ProcessorRef) : Pc → Prop
  | .unlock _ (.normal nodes' refs') | .refill _ nodes' refs' => nodes' = nodes ∧ refs' = refs
  | .outer | .quit | .lock _ | .readStatus _ | .dropRemove _ | .dropCount _ | .unlock _ _ | .count _ | .remove _ => True
  | _ => False

end Pc

/-- How far the attempts for `a` have come. -/
inductive Tried (setting : Setting) (strategy : String) (a : Nat) (s₀ s : State) : Prop
  | trying (pc : s.pc.app = some a → s.pc.registers = false) (left : LeftApp strategy (s₀.apps a) (s.apps a))
      (fresh : registeredFor a s = [])
  | placed (nodes : Nodes) (order : List Nat) (refs : List ProcessorRef) (pc : s.pc = .register a nodes)
      (last : LastAttempt setting a s₀ s nodes order) (alone : Alone setting (s₀.apps a) nodes order (s.apps a) refs)
      (left : LeftApp strategy (s₀.apps a) { s.apps a with resourceDispatch := (s₀.apps a).resourceDispatch })
      (fresh : registeredFor a s = [])
  | served (nodes : Nodes) (order : List Nat) (refs : List ProcessorRef)
      (pc : s.pc.app = some a → s.pc.finishes nodes refs)
      (alone : Alone setting (s₀.apps a) nodes order (s.apps a) refs) (stored : Stored setting a s₀ s nodes order refs) (once : registeredFor a s = [(a,refs)])
      (row : ∃ row, s.db (s₀.apps a).sessionId = some row ∧ row.status ≠ .WAITING_RESOURCE)

section
variable {setting : Setting} {strategy : String} {a : Nat} {s₀ s t : State} {nodes : Nodes} {order : List Nat}
  {refs : List ProcessorRef}

theorem LastAttempt.step {act : Act} (last : LastAttempt setting a s₀ s nodes order)
    (other : ∀ answer, act ≠ .dispatcher answer) (stepped : (system setting).step s act = some t) :
    LastAttempt setting a s₀ t nodes order := by
  obtain ⟨before,u,since,first,pc,run,quiet⟩ := last
  refine ⟨before,u,since ++ [act],first,pc,run.trans (.single stepped),fun other' member => ?_⟩
  rcases List.mem_append.mp member with before | now
  · exact quiet other' before
  · exact List.mem_singleton.mp now ▸ other

theorem Touched.object {app app' : ResourceApplication} (touched : Touched app app') : app'.object = app.object := by
  rw [touched]
  funext ref
  cases ref <;> rfl

theorem Alone.touched {app₀ app app' : ResourceApplication} (alone : Alone setting app₀ nodes order app refs)
    (touched : Touched app app') : Alone setting app₀ nodes order app' refs := by
  have object := touched.object
  have dispatch : app'.resourceDispatch = app.resourceDispatch := by rw [touched]
  refine ⟨alone.normal,?_,?_,?_,⟨alone.ready.once,?_,?_⟩,?_⟩
  · rw [dispatch]
    exact alone.listed
  · rw [dispatched,dispatch,object]
    exact alone.same
  · simp only [Consistent,dispatch,object]
    exact alone.consistent
  · simp only [Served,object]
    exact alone.ready.served
  · rw [touched]
    exact alone.ready.requested
  · rw [touched]
    exact alone.others

theorem Stored.step {act : Act} (stored : Stored setting a s₀ s nodes order refs)
    (object : (t.apps a).object = (s.apps a).object) (stepped : (system setting).step s act = some t) : Stored setting a s₀ t nodes order refs := by
  obtain ⟨v,w,after,last,registers,run,row⟩ := stored
  exact ⟨v,w,after ++ [act],last,registers,run.trans (.single stepped),by rw [object]; exact row⟩

theorem Touched.left {app₀ app app' : ResourceApplication} (touched : Touched app app')
    (left : LeftApp strategy app₀ app) : LeftApp strategy app₀ app' := by
  rw [touched]
  exact ⟨by rw [left.rest],left.processors⟩

private theorem Touched.left_dispatch {app₀ app app' : ResourceApplication} {list : List (ProcessorRef × ErServerNode)}
    (touched : Touched app app') (left : LeftApp strategy app₀ { app with resourceDispatch := list }) :
    LeftApp strategy app₀ { app' with resourceDispatch := list } := by
  obtain ⟨rest,processors⟩ := left
  rw [touched]
  refine ⟨?_,processors⟩
  simp only [ResourceApplication.mk.injEq] at rest ⊢
  simpa using rest

private theorem waits_no_more {act : Act} {sid : String} (row : ∃ row, s.db sid = some row ∧ row.status ≠ .WAITING_RESOURCE)
    (stepped : (system setting).step s act = some t) : ∃ row, t.db sid = some row ∧ row.status ≠ .WAITING_RESOURCE := by
  obtain ⟨old,found,status⟩ := row
  obtain ⟨new,stored,kept⟩ := step_row stepped found
  exact ⟨new,stored,kept status⟩

theorem Tried.others {act : Act} (tried : Tried setting strategy a s₀ s) (other : ∀ answer, act ≠ .dispatcher answer)
    (stepped : (system setting).step s act = some t) : Tried setting strategy a s₀ t := by
  obtain ⟨pc,-,registered⟩ := others_frame other stepped
  obtain ⟨count,app⟩ := (others_moves a other stepped).1
  have touched : Touched (s.apps a) (t.apps a) := by
    rw [app]
    rfl
  have mine : registeredFor a t = registeredFor a s := by rw [registeredFor,registered,registeredFor]
  cases tried with
  | trying place left fresh => exact .trying (by rw [pc]; exact place) (touched.left left) (mine.trans fresh)
  | placed nodes order refs place last alone left fresh =>
    exact .placed nodes order refs (pc.trans place) (last.step other stepped) (alone.touched touched)
      (touched.left_dispatch left) (mine.trans fresh)
  | served nodes order refs place alone stored once row =>
    exact .served nodes order refs (by rw [pc]; exact place) (alone.touched touched) (stored.step touched.object stepped)
      (mine.trans once) (waits_no_more row stepped)

private theorem registeredFor_kept {answer : Answer} (other : ∀ nodes, s.pc ≠ .register a nodes)
    (stepped : dispatcherStep setting s answer = some t) : registeredFor a t = registeredFor a s := by
  rcases dispatcher_registers stepped with ⟨-,registered⟩ | ⟨b,nodes,pc,-,-,registered⟩
  · rw [registeredFor,registered,registeredFor]
  · have elsewhere : b ≠ a := fun same => other nodes (same ▸ pc)
    rw [registeredFor,registered,List.filter_append,registeredFor]
    simp [elsewhere]

theorem Tried.elsewhere {answer : Answer} (tried : Tried setting strategy a s₀ s) (busy : s.pc.app ≠ some a)
    (stepped : dispatcherStep setting s answer = some t) : Tried setting strategy a s₀ t := by
  obtain ⟨same,-,pc⟩ := dispatcher_elsewhere busy stepped
  have touched : Touched (s.apps a) (t.apps a) := same.app
  have mine : registeredFor a t = registeredFor a s :=
    registeredFor_kept (fun nodes here => busy (by rw [here]; rfl)) stepped
  cases tried with
  | trying _ left fresh =>
    exact .trying (fun here => by rw [pc here]; rfl) (touched.left left) (mine.trans fresh)
  | placed nodes order refs place => exact absurd (by rw [place]; rfl) busy
  | served nodes order refs _ alone stored once row =>
    have step : (system setting).step s (.dispatcher answer) = some t := stepped
    exact .served nodes order refs (fun here => by rw [pc here]; trivial) (alone.touched touched)
      (stored.step touched.object step) (mine.trans once) (waits_no_more row step)

theorem Tried.dispatch {labels : List Act} {b : Nat} (ran : (system setting).Run s₀ labels s)
    (idle : (s₀.apps b).resourceDispatch = [])
    (known : ∀ other, (s₀.apps b).dispatchStrategy = some other → other = strategy)
    (pc : s.pc = .dispatch b nodes) (left : LeftApp strategy (s₀.apps b) (s.apps b)) (fresh : registeredFor b s = [])
    (clean : Clean nodes (s₀.apps b) (s.apps b))
    (stepped : dispatcherStep setting s (.shuffled order) = some t) : Tried setting strategy b s₀ t := by
  have retried := dispatch_retried setting order nodes idle known left
  have idle' : (s.apps b).resourceDispatch = [] := by
    rw [left.rest]
    exact idle
  have step : (system setting).step s (.dispatcher (.shuffled order)) = some t := stepped
  rw [dispatcherStep.eq_def,pc] at stepped
  dsimp only at stepped
  split at stepped
  · rename_i app done
    cases stepped
    have normal : (ResourceDispatch.dispatch setting order nodes (s.apps b)).2 = none := by rw [done]
    have consistent := dispatch_consistent setting order nodes idle' normal
    have kept : Kept (s.apps b) (ResourceDispatch.dispatch setting order nodes (s.apps b)).1 :=
      (dispatch_spec setting order nodes (s.apps b)).1.kept
    have unplaced := fun other => dispatch_unplaced setting order nodes idle' other normal
    have at_b : ((s.setApp b app).goto (.register b nodes)).apps b = app := by
      simp [State.goto,State.setApp]
    rw [done] at retried consistent unplaced kept
    have alone : Alone setting (s₀.apps b) nodes order app (app.resourceDispatch.map Prod.fst) := by
      refine ⟨retried.outcome.symm,rfl,retried.same retried.outcome.symm clean,consistent,dispatch_ready idle' done,
        fun other => ?_⟩
      have same := kept.same
      dsimp only at same
      rw [same] at other
      exact unplaced other
    refine .placed nodes order _ rfl ⟨labels,s,[],ran,pc,.single step,fun _ member => by cases member⟩
      (by rw [at_b]; exact alone) ?_ fresh
    rw [at_b]
    exact retried.left
  · rename_i app e done
    cases stepped
    have threw := (dispatch_spec setting order nodes (s.apps b)).1.threw e (by rw [done])
    rw [done] at retried threw
    have at_b : ((s.setApp b app).goto (.unlock b .throws)).apps b = app := by
      simp [State.goto,State.setApp]
    refine .trying (fun _ => rfl) ?_ fresh
    have same : { app with resourceDispatch := (s₀.apps b).resourceDispatch } = app := by
      have kept : app.resourceDispatch = [] := threw.trans idle'
      rw [idle,← kept]
    rw [at_b,← same]
    exact retried.left

theorem Tried.attempt {answer : Answer} {labels : List Act} (ran : (system setting).Run s₀ labels s)
    (idle : (s₀.apps a).resourceDispatch = [])
    (known : ∀ other, (s₀.apps a).dispatchStrategy = some other → other = strategy)
    (busy : s.pc.app = some a) (early : s.pc.registers = false) (left : LeftApp strategy (s₀.apps a) (s.apps a))
    (fresh : registeredFor a s = []) (allowed : lasting a (s₀.apps a) s (.dispatcher answer) = true)
    (stepped : dispatcherStep setting s answer = some t) : Tried setting strategy a s₀ t := by
  have onward {u : State} (touched : Touched (s.apps a) (u.apps a)) (registered : u.registered = s.registered)
      (pc : u.pc.registers = false) : Tried setting strategy a s₀ u :=
    .trying (fun _ => pc) (touched.left left) (by rw [registeredFor,registered]; exact fresh)
  unfold dispatcherStep at stepped
  split at stepped
  case h_1 pc => simp [pc,Pc.app] at busy
  case h_24 => cases stepped
  case h_17 pc | h_18 pc | h_21 pc | h_22 pc | h_23 pc => simp [pc,Pc.registers] at early
  case h_16 b nodes order pc =>
    rw [pc,Pc.app,Option.some.injEq] at busy
    subst busy
    refine Tried.dispatch ran idle known pc left fresh ?_ (by rw [dispatcherStep.eq_def,pc]; exact stepped)
    simpa [lasting,pc] using allowed
  all_goals
    rw [‹s.pc = _›,Pc.app,Option.some.injEq] at busy
    subst busy
  case h_2 | h_3 | h_5 | h_11 | h_20 =>
    cases stepped
    exact onward rfl rfl rfl
  case h_4 =>
    split at stepped
    · cases stepped
      exact onward rfl rfl rfl
    · split at stepped <;> cases stepped <;> exact onward rfl rfl rfl
  case h_6 | h_9 | h_15 =>
    cases stepped
    unfold State.take
    split <;> exact onward rfl rfl rfl
  case h_7 | h_14 =>
    cases stepped
    exact onward (by simp [Touched,State.goto,State.setApp,State.countDown]) rfl rfl
  case h_8 | h_10 => split at stepped <;> cases stepped <;> exact onward rfl rfl rfl
  case h_12 b nodes pc =>
    split at stepped
    · cases stepped
      exact onward rfl rfl rfl
    · rename_i enough app checked
      cases stepped
      have early : (if enough then Pc.dispatch b (nodes.getD []) else .strategy b (nodes.getD [])).registers = false := by
        cases enough <;> rfl
      rcases checkResourceEnough_keeps checked with same | ⟨-,same⟩
      · exact onward (by simp [Touched,State.goto,State.setApp,same]) rfl early
      · exact onward (by simp [Touched,State.goto,State.setApp,same]) rfl early
  case h_13 =>
    split at stepped
    · cases stepped
      exact onward rfl rfl rfl
    · split at stepped
      · cases stepped
        exact onward rfl rfl rfl
      · split at stepped
        · cases stepped
          exact onward rfl rfl rfl
        · split at stepped
          · cases stepped
            exact onward (by simp [Touched,State.goto,State.setApp,State.answer]) rfl rfl
          · cases stepped
            exact onward rfl rfl rfl
  case h_19 pc =>
    split at stepped
    case h_6 => simp [pc,Pc.registers] at early
    all_goals
      cases stepped
      exact onward rfl rfl rfl

theorem Tried.registered {answer : Answer} (idle : (s₀.apps a).resourceDispatch = [])
    (sessionId : (s.apps a).sessionId = (s₀.apps a).sessionId)
    (stands : (s.db (s.apps a).sessionId).isSome = true) (pc : s.pc = .register a nodes)
    (last : LastAttempt setting a s₀ s nodes order) (alone : Alone setting (s₀.apps a) nodes order (s.apps a) refs)
    (left : LeftApp strategy (s₀.apps a) { s.apps a with resourceDispatch := (s₀.apps a).resourceDispatch })
    (fresh : registeredFor a s = []) (allowed : lasting a (s₀.apps a) s (.dispatcher answer) = true)
    (stepped : dispatcherStep setting s answer = some t) : Tried setting strategy a s₀ t := by
  have step : (system setting).step s (.dispatcher answer) = some t := stepped
  rw [dispatcherStep.eq_def,pc] at stepped
  cases answer <;> cases stepped
  · obtain ⟨old,found⟩ := Option.isSome_iff_exists.mp stands
    have row : (s.register a).db (s₀.apps a).sessionId = some ⟨.NEW,refs.filterMap (s.apps a).object⟩ := by
      rw [← sessionId,State.register,← alone.listed]
      simp [found]
    refine .served nodes order refs (fun _ => ⟨rfl,alone.listed⟩) alone ⟨s,_,[],last,step,System.run_nil _ _,row⟩ ?_
      ⟨_,row,by simp⟩
    have mine (next : Pc) : registeredFor a ((s.register a).goto next) =
        registeredFor a s ++ [(a,(s.apps a).resourceDispatch.map Prod.fst)] := by
      simp [registeredFor,State.goto,State.register]
    rw [mine,fresh,alone.listed]
    rfl
  · have nothing : (s.apps a).resourceDispatch = [] := by simpa [lasting,pc] using allowed
    refine .trying (fun _ => rfl) ?_ fresh
    have same : { s.apps a with resourceDispatch := (s₀.apps a).resourceDispatch } = s.apps a := by
      rw [idle,← nothing]
    exact same ▸ left

private theorem regroup_consistent (app : ResourceApplication) (nodes : Nodes) (refs : List ProcessorRef) :
    ∀ pair ∈ (regroup app nodes refs).1, Consistent app pair := by
  induction refs with
  | nil => exact fun pair member => by cases member
  | cons ref rest ih =>
    rw [regroup]
    split
    · exact fun pair member => by cases member
    · rename_i node found
      obtain ⟨p,object,there⟩ := Option.bind_eq_some_iff.mp found
      have server := List.find?_some there
      rintro pair (_ | ⟨_,later⟩)
      · exact ⟨p,object,(of_decide_eq_true server).symm⟩
      · exact ih pair later

theorem Alone.regroup {app₀ app : ResourceApplication} (alone : Alone setting app₀ nodes order app refs) :
    Alone setting app₀ nodes order { app with resourceDispatch := (regroup app nodes refs).1 } refs := by
  obtain ⟨-,listed⟩ := regroup_ready alone.ready.served
  have object : { app with resourceDispatch := (Dispatcher.regroup app nodes refs).1 }.object = app.object := by
    funext ref
    cases ref <;> rfl
  refine ⟨alone.normal,listed,?_,fun pair member => ?_,?_,alone.others⟩
  · have same : dispatched { app with resourceDispatch := (Dispatcher.regroup app nodes refs).1 } = dispatched app := by
      have fold (app : ResourceApplication) : dispatched app = (app.resourceDispatch.map Prod.fst).map app.object := by
        rw [List.map_map]
        rfl
      rw [fold,fold,listed,object,alone.listed]
    rw [same]
    exact alone.same
  · rw [Consistent,object]
    exact regroup_consistent app nodes refs pair member
  · refine ⟨alone.ready.once,fun ref member => ?_,alone.ready.requested⟩
    rw [Served,object]
    exact alone.ready.served ref member

theorem Tried.finish {answer : Answer} (sessionId : (s.apps a).sessionId = (s₀.apps a).sessionId)
    (busy : s.pc.app = some a) (place : s.pc.finishes nodes refs) (alone : Alone setting (s₀.apps a) nodes order (s.apps a) refs)
    (stored : Stored setting a s₀ s nodes order refs) (once : registeredFor a s = [(a,refs)])
    (row : ∃ row, s.db (s₀.apps a).sessionId = some row ∧ row.status ≠ .WAITING_RESOURCE)
    (stepped : dispatcherStep setting s answer = some t) : Tried setting strategy a s₀ t := by
  have step : (system setting).step s (.dispatcher answer) = some t := stepped
  have row' := waits_no_more row step
  have onward (touched : Touched (s.apps a) (t.apps a)) (registered : t.registered = s.registered)
      (pc : t.pc.app = some a → t.pc.finishes nodes refs) : Tried setting strategy a s₀ t :=
    .served nodes order refs pc (alone.touched touched) (stored.step touched.object step)
      (by rw [registeredFor,registered]; exact once) row'
  unfold dispatcherStep at stepped
  split at stepped
  case h_1 pc => simp [pc,Pc.app] at busy
  case h_24 => cases stepped
  case h_8 pc | h_9 pc | h_10 pc | h_11 pc | h_12 pc | h_13 pc | h_14 pc | h_15 pc | h_16 pc | h_17 pc | h_18 pc =>
    rw [pc] at place
    exact place.elim
  all_goals
    rw [‹s.pc = _›,Pc.app,Option.some.injEq] at busy
    subst busy
  case h_2 | h_3 | h_5 | h_20 =>
    cases stepped
    exact onward rfl rfl fun _ => trivial
  case h_4 =>
    obtain ⟨found,there,status⟩ := row
    rw [sessionId,there] at stepped
    dsimp only at stepped
    rw [if_pos status] at stepped
    cases stepped
    exact onward rfl rfl fun _ => trivial
  case h_6 | h_23 =>
    cases stepped
    unfold State.take at onward ⊢
    split at onward <;> exact onward rfl rfl fun _ => trivial
  case h_7 =>
    cases stepped
    exact onward (by simp [Touched,State.goto,State.setApp,State.countDown]) rfl fun _ => trivial
  case h_22 =>
    cases stepped
    exact onward (by simp [Touched,State.goto,State.setApp,State.countDown,State.answer]) rfl fun _ => trivial
  case h_19 b completion pc =>
    rw [pc] at place
    split at stepped
    case h_6 =>
      cases stepped
      exact onward rfl rfl fun _ => place
    all_goals
      cases stepped
      exact onward rfl rfl fun _ => trivial
  case h_21 b nodes' refs' pc =>
    rw [pc] at place
    obtain ⟨rfl,rfl⟩ := place
    cases stepped
    have at_b (next : Pc) : ((s.setApp b { s.apps b with resourceDispatch := (regroup (s.apps b) nodes' refs').1 }).goto
        next).apps b = { s.apps b with resourceDispatch := (regroup (s.apps b) nodes' refs').1 } := by
      simp [State.goto,State.setApp]
    refine .served nodes' order refs' (fun _ => ?_) (by rw [at_b]; exact alone.regroup) (stored.step ?_ step) once row'
    · dsimp only [State.goto]
      split <;> trivial
    · rw [at_b]
      funext ref
      cases ref <;> rfl

theorem Tried.step {act : Act} {labels : List Act} (tried : Tried setting strategy a s₀ s)
    (ran : (system setting).Run s₀ labels s) (queue : QueueSound s) (rows : Rows s)
    (fixed : Fixed (s₀.apps a) (s.apps a)) (idle : (s₀.apps a).resourceDispatch = [])
    (known : ∀ other, (s₀.apps a).dispatchStrategy = some other → other = strategy)
    (allowed : lasting a (s₀.apps a) s act = true) (stepped : (system setting).step s act = some t) :
    Tried setting strategy a s₀ t := by
  by_cases other : ∀ answer, act ≠ .dispatcher answer
  · exact tried.others other stepped
  obtain ⟨answer,rfl⟩ := not_forall_not.mp other
  by_cases busy : s.pc.app = some a
  · cases tried with
    | trying pc left fresh => exact .attempt ran idle known busy (pc busy) left fresh allowed stepped
    | placed nodes order refs pc last alone left fresh =>
      have head := queue.head a (by rw [pc]; rfl)
      have submitted : a ∈ s.submitted := by
        rw [queue.order]
        exact List.mem_append_right _ (List.mem_of_mem_head? head)
      exact .registered idle fixed.sessionId (rows a (.inr (queue.queued a submitted))) pc last alone left fresh allowed
        stepped
    | served nodes order refs pc alone stored once row =>
      exact .finish fixed.sessionId busy (pc busy) alone stored once row stepped
  · exact tried.elsewhere busy stepped

end

/-- The session that is registered for `a` and its dispatch have the processors `refs`, each once
and with its node: those requested if the strategy places these. They are as the last attempt
makes them of the application as submitted, and so was the session stored. -/
structure LastOnly (setting : Setting) (a : Nat) (s₀ s : State) (refs : List ProcessorRef) : Prop where
  registered : registeredFor a s = [(a,refs)]
  listed : (s.apps a).resourceDispatch.map Prod.fst = refs
  once : refs.Nodup
  requested : ∀ strategy ∈ placing, (s₀.apps a).dispatchStrategy = some strategy →
    refs.Perm (firstRequested (s₀.apps a).processors.length)
  others : (∀ strategy ∈ placing, (s₀.apps a).dispatchStrategy ≠ some strategy) → ∀ i, .requested i ∉ refs
  nodes : ∀ pair ∈ (s.apps a).resourceDispatch, Consistent (s.apps a) pair
  last : ∃ nodes order, Stored setting a s₀ s nodes order refs ∧ (dispatch setting order nodes (s₀.apps a)).2 = none ∧
    (dispatched (s.apps a)).Perm (dispatched (dispatch setting order nodes (s₀.apps a)).1)

theorem last_attempt_only (setting : Setting) {a : Nat} {s₀ s : State} {labels : List Act}
    (started : (system setting).start s₀)
    (run : ((system setting).restrict (lasting a (s₀.apps a))).Run s₀ labels s) {refs : List ProcessorRef}
    (registered : (a,refs) ∈ s.registered) : LastOnly setting a s₀ s refs := by
  have idle : (s₀.apps a).resourceDispatch = [] := (started.1 a).1
  let strategy := (s₀.apps a).dispatchStrategy.getD ""
  have known : ∀ other, (s₀.apps a).dispatchStrategy = some other → other = strategy := by
    intro other asked
    simp [strategy,asked]
  have invariant : (∃ labels, (system setting).Run s₀ labels s) ∧ QueueSound s ∧ Rows s ∧ Fixed (s₀.apps a) (s.apps a) ∧
      Tried setting strategy a s₀ s := by
    refine run.invariant (P := fun s => (∃ labels, (system setting).Run s₀ labels s) ∧ QueueSound s ∧ Rows s ∧
      Fixed (s₀.apps a) (s.apps a) ∧ Tried setting strategy a s₀ s) ?_ ?_
    · rintro s act t ⟨⟨labels,ran⟩,queue,rows,fixed,tried⟩ step
      obtain ⟨allowed,stepped⟩ := (System.restrict_step_iff _ _ _ _ _).mp step
      exact ⟨⟨_,ran.trans (.single stepped)⟩,queue.step setting stepped,rows.step stepped,
        fixed.trans (step_fixed stepped a),tried.step ran queue rows fixed idle known allowed stepped⟩
    · refine ⟨⟨[],System.run_nil _ _⟩,.start setting started,fun b there => ?_,.refl _,
        .trying (fun busy => ?_) (.refl _ _) ?_⟩
      · simp [started.2.2.2.1,SubmitterPc.queued] at there
      · simp [started.2.2.1,Pc.app] at busy
      · simp [registeredFor,started.2.2.2.2.2.2.2]
  obtain ⟨-,-,-,fixed,tried⟩ := invariant
  have mine : (a,refs) ∈ registeredFor a s := List.mem_filter.mpr ⟨registered,by simp⟩
  cases tried with
  | trying _ _ fresh | placed _ _ _ _ _ _ _ fresh =>
    rw [fresh] at mine
    cases mine
  | served nodes order refs' _ alone stored once =>
    rw [once] at mine
    cases List.mem_singleton.mp mine
    refine ⟨once,alone.listed,alone.ready.once,?_,?_,alone.consistent,nodes,order,stored,alone.normal,alone.same⟩
    · rw [← fixed.dispatchStrategy,← fixed.requested]
      exact alone.ready.requested
    · rw [← fixed.dispatchStrategy]
      exact alone.others

/-- A node with a row of GPUs for each of `rows`, the total and the indices that are in use. -/
def gpuNode (rows : List (Int × List String)) : ErServerNode :=
  ⟨1,"node",rows.map fun row =>
    { resourceType := Dict.VGPU_CORE, total := row.1, allocated := row.2.length, preAllocated := 0
      extention := some row.2 }⟩

/-- An application for two processors with one GPU each. -/
def twoGpus : ResourceApplication where
  sessionId := "session"
  processors := List.replicate 2 { processorType := "DeepSpeed", status := "NEW"
                                   resources := [{ resourceType := Dict.VGPU_CORE, allocated := 1 }] }
  sortByResourceType := Dict.VGPU_CORE

/-- The indices that the processors hold. -/
def indices (app : ResourceApplication) : List (List (Option (List String))) :=
  app.processors.map fun p => p.resources.map ErResource.extention

/-- The steps of an attempt up to the dispatch. -/
def attempts (serverNodes : Nodes) : List Act := passes serverNodes ++ [.dispatcher (.shuffled [])]

/-- The first attempt throws when it has given the first processor an index; the second gives
both of them other indices. -/
theorem last_attempt_only_indices : ∃ s, LastOnly plainSetting 0 (.fresh fun _ => twoGpus) s [.requested 0,.requested 1] ∧
    indices (s.apps 0) = [[some ["2"]],[some ["3"]]] := by
  have ran : (((system plainSetting).restrict (lasting 0 twoGpus)).exec (.fresh fun _ => twoGpus)
      (submits 0 ++ attempts [gpuNode [(1,[]),(1,[])]] ++ [.dispatcher .ok] ++ attempts [gpuNode [(4,["0","1"])]] ++
        [.dispatcher .ok,.dispatcher .ok,.dispatcher .ok,.dispatcher .ok,.dispatcher .ok])).any
      (fun s => decide (s.registered = [(0,[.requested 0,.requested 1])]) &&
        decide (indices (s.apps 0) = [[some ["2"]],[some ["3"]]])) = true := by decide +kernel
  obtain ⟨s,run,found⟩ := (Option.any_eq_true _ _).mp ran
  simp only [Bool.and_eq_true,decide_eq_true_eq] at found
  have started : (system plainSetting).start (.fresh fun _ => twoGpus) :=
    State.fresh_start plainSetting fun _ => ⟨rfl,rfl,rfl,rfl⟩
  have registered : (0,[.requested 0,.requested 1]) ∈ s.registered := by
    rw [found.1]
    exact List.mem_singleton_self _
  exact ⟨s,last_attempt_only plainSetting started run registered,found.2⟩

/-- The registration throws once: the next attempt adds to what the first has dispatched, and the
session is registered with its one processor twice. -/
theorem registered_twice : ∃ s, (system plainSetting).start (.fresh fun _ => oneProcessor "session" 1) ∧
    (system plainSetting).Run (.fresh fun _ => oneProcessor "session" 1)
      (submits 0 ++ attempts [fourCores 0] ++ [.dispatcher .raises,.dispatcher .ok] ++ attempts [fourCores 0] ++
        [.dispatcher .ok,.dispatcher .ok,.dispatcher .ok,.dispatcher .ok]) s ∧
    s.registered = [(0,[.requested 0,.requested 0])] ∧
    (s.apps 0).resourceDispatch.map Prod.fst = [.requested 0,.requested 0] ∧
    ¬ LastOnly plainSetting 0 (.fresh fun _ => oneProcessor "session" 1) s [.requested 0,.requested 0] := by
  have ran : ((system plainSetting).exec (.fresh fun _ => oneProcessor "session" 1)
      (submits 0 ++ attempts [fourCores 0] ++ [.dispatcher .raises,.dispatcher .ok] ++ attempts [fourCores 0] ++
        [.dispatcher .ok,.dispatcher .ok,.dispatcher .ok,.dispatcher .ok])).any
      (fun s => decide (s.registered = [(0,[.requested 0,.requested 0])]) &&
        decide ((s.apps 0).resourceDispatch.map Prod.fst = [.requested 0,.requested 0])) = true := by decide +kernel
  obtain ⟨s,run,found⟩ := (Option.any_eq_true _ _).mp ran
  simp only [Bool.and_eq_true,decide_eq_true_eq] at found
  exact ⟨s,State.fresh_start plainSetting fun _ => ⟨rfl,rfl,rfl,rfl⟩,run,found.1,found.2,
    fun only => absurd only.once (by decide)⟩

end Eggroll.Dispatcher
