import Eggroll.NodeRuns

/-! Resource accounting over whole runs: every line of `ProcessorStateMachine` is led to its end
without a move, and wherever none is in progress the counters are what the processors hold. -/
namespace Eggroll.Cluster.NodeAccounts
open Library
open Program hiding call

section
variable {useResourceDispatch : Bool} {requests : ℕ → Request} {id : ℕ} {s t : State}
  {context : Context} {pre des : String} {data : ErProcessor} {found : Option SessionProcessor}

theorem Ready.stable : (contract useResourceDispatch id).Stable (Ready id found) := fun _ _ => Ready.keeps

def Made (useResourceDispatch : Bool) (id : ℕ) (data : ErProcessor) (processorId : Int) (s : State) : Prop :=
  if checkNeedChangeResource useResourceDispatch data then
    Started id ⟨processorId,.preAllocated⟩ .asked data.serverNodeId [] data.resources s
  else Rests id s

theorem Made.stable (processorId : Int) :
    (contract useResourceDispatch id).Stable (Made useResourceDispatch id data processorId) := by
  intro s t keeps made
  unfold Made at made ⊢
  split
  · rename_i takes
    rw [if_pos takes] at made
    exact made.keeps keeps
  · rename_i takes
    rw [if_neg takes] at made
    exact keeps.moving.trans made

private theorem Inv.unreturned (inv : Inv useResourceDispatch s) {key : ResourceKey}
    (is : key.processorId = some (s.tables.nextId : Int)) : s.returned.count key = 0 := by
  refine List.count_eq_zero.mpr fun member => ?_
  obtain ⟨row,inside,same,-⟩ := inv.returned key member
  exact inv.older inside (Option.some.inj (same.symm.trans is))

private theorem managed_new (data : ErProcessor) (processorId : Int) :
    managed useResourceDispatch { data.toRow with processorId := processorId } =
      checkNeedChangeResource useResourceDispatch data := rfl

private theorem saveProcessor_managed (takes : checkNeedChangeResource useResourceDispatch data = true) (new : data.status = "NEW")
    (whole : intValue data.serverNodeId = data.serverNodeId)
    (left : ∀ resource ∈ data.resources, 0 ≤ resource.allocated ∧
      ∃ node, s.tables.nodeResource data.serverNodeId resource.resourceType = some node ∧
        s.admitted data.serverNodeId resource.resourceType + amount data.resources resource.resourceType ≤ node.total)
    (inv : Inv useResourceDispatch s) (ready : Ready id found s)
    (is : t = { s.move id (some ⟨s.tables.nextId,.preAllocated⟩) with
      charge := Function.update s.charge s.tables.nextId .asked
      asked := Function.update s.asked s.tables.nextId data.resources
      tables := s.tables.write (.saveProcessor data.toRow) }) :
    Inv useResourceDispatch t ∧ (∀ other ≠ id, Keeps other s t) ∧
      Started id ⟨s.tables.nextId,.preAllocated⟩ .asked data.serverNodeId [] data.resources t := by
  have at_node : (ErProcessor.toRow data).serverNodeId = data.serverNodeId := whole
  have asked : t.asked s.tables.nextId = data.resources := by
    rw [is]
    exact Function.update_self _ _ _
  have moving : t.moving id = some ⟨s.tables.nextId,.preAllocated⟩ := by
    rw [is]
    exact Function.update_self _ _ _
  have inserted : Inserted id { data.toRow with processorId := s.tables.nextId } .asked s t := by
    subst is
    exact ⟨rfl,rfl,rfl,.inl rfl,fun _ other => Function.update_of_ne other _ _,rfl,rfl,rfl,
      fun _ other => Function.update_of_ne other _ _,ready.rests⟩
  refine ⟨inserted.inv inv ?_ ?_ fun _ resource member => ?_,fun other ne => inserted.keeps inv ne,
    ⟨moving,?_,⟨{ data.toRow with processorId := s.tables.nextId },?_,rfl,at_node⟩,?_,fun key is => ?_⟩,
    fun key own => ready.outside key ?_,asked⟩
  · rw [managed_new,takes]
    simp
  · rw [moving,if_pos rfl]
    simp [ErProcessor.toRow,new,chargeOf]
  · rw [asked] at member ⊢
    dsimp only
    rw [at_node]
    exact left resource member
  · rw [inserted.charge]
    exact Function.update_self _ _ _
  · rw [inserted.tables]
    exact List.mem_append_right _ (List.mem_singleton_self _)
  · have none : resources t.tables s.tables.nextId = [] := by
      rw [inserted.tables]
      exact inv.none_yet
    rw [none]
    rfl
  · rw [inserted.returned]
    exact inv.unreturned is
  · rw [inserted.locks] at own
    exact own

private theorem saveProcessor_unmanaged (takes : checkNeedChangeResource useResourceDispatch data = false)
    (inv : Inv useResourceDispatch s) (rests : Rests id s)
    (is : t = { s with tables := s.tables.write (.saveProcessor data.toRow) }) :
    Inv useResourceDispatch t ∧ ∀ other ≠ id, Keeps other s t := by
  have nothing : s.charge s.tables.nextId = .nothing := inv.fresh _ (Int.le_refl _)
  have inserted : Inserted id { data.toRow with processorId := s.tables.nextId } .nothing s t := by
    subst is
    exact ⟨rfl,rfl,by rw [← nothing,Function.update_eq_self],.inr rfl,fun _ _ => rfl,rfl,rfl,rfl,fun _ _ => rfl,rests⟩
  refine ⟨inserted.inv inv ?_ ?_ nofun,fun other ne => inserted.keeps inv ne⟩
  · rw [managed_new,takes]
    simp
  · rw [is,if_neg nofun]
    exact rests

private theorem saveProcessor_lead (given : data.resources = (requests id).erProcessor.resources)
    (status : data.status = (requests id).erProcessor.status)
    (node : data.serverNodeId = (requests id).erProcessor.serverNodeId) (ready : Ready id found s) :
    Leads useResourceDispatch requests id (call (.saveProcessor data.toRow))
      (Made useResourceDispatch id data) (Rests id) s := by
  refine Does.perform Ready.stable Made.stable Rests.stable ready fun t env u answer inv here served => ?_
  obtain ⟨allowed,served⟩ := service_cases served
  rcases serve_cases rfl served with ⟨rfl,⟨e,rfl⟩,-⟩ | ⟨rfl,now⟩
  · exact ⟨inv,fun other _ => .refl other u,here.rests⟩
  have same : checkNeedChangeResource useResourceDispatch data.toRow.toErProcessor =
      checkNeedChangeResource useResourceDispatch data := rfl
  simp only [State.note,same] at now
  change _ ∧ _ ∧ Made useResourceDispatch id data (t.tables.nextId : Int) u
  unfold Made
  cases takes : checkNeedChangeResource useResourceDispatch data with
  | true =>
    have admitted := (Bool.and_eq_true_iff.mp allowed).2
    simp only [same,takes,Bool.not_true,Bool.false_or,admits,decide_eq_true_eq,Option.any_eq_true] at admitted
    rw [← given,← status,← node] at admitted
    rw [takes,if_pos rfl,← given] at now
    obtain ⟨new,whole,left⟩ := admitted
    rw [if_pos rfl]
    exact saveProcessor_managed takes new whole left inv here now
  | false =>
    rw [takes,if_neg Bool.false_ne_true] at now
    obtain ⟨inv',keeps⟩ := saveProcessor_unmanaged takes inv here.rests now
    refine ⟨inv',keeps,?_⟩
    rw [if_neg Bool.false_ne_true,now]
    exact here.rests

private theorem create_lead (given : data.resources = (requests id).erProcessor.resources)
    (status : data.status = (requests id).erProcessor.status)
    (node : data.serverNodeId = (requests id).erProcessor.serverNodeId) (unbroken : context.isBreak = false)
    (inv : Inv useResourceDispatch s) (ready : Ready id found s) :
    Leads useResourceDispatch requests id ((processorCreateHandler useResourceDispatch).handle context data pre des)
      (fun _ => Rests id) (Rests id) s := by
  refine (saveProcessor_lead given status node ready).bind inv Rests.stable fun processorId t inv made => ?_
  unfold Made at made
  unfold changeResourceIfNeeded
  have same : checkNeedChangeResource useResourceDispatch { data with id := processorId } =
      checkNeedChangeResource useResourceDispatch data := rfl
  rw [same]
  split
  · rename_i takes
    rw [if_pos takes] at made
    exact preAllocated_lead unbroken rfl rfl inv made
  · rename_i takes
    rw [if_neg takes] at made
    exact .pure Rests.stable made

private theorem harmless_locked_lead {handler : StateHandler ErProcessor}
    (making : MakingHandler (fun op => harmless op = true) handler (fun _ => True) pre des) (rests : Rests id s) :
    Leads useResourceDispatch requests id (AbstractStateMachine.locked handler context data pre des false)
      (fun _ => Rests id) (Rests id) s :=
  rests_lead (locked_makes making data) rests

private theorem processorPrepare_harmless (context : Context) (data : ErProcessor) (pre des : String) :
    (processorPrepare context data pre des).Makes (fun op => harmless op = true) fun _ => True := by
  unfold processorPrepare
  split
  · exact .pure trivial
  · refine .bind (call_harmless rfl) fun found _ => ?_
    cases found with
    | some row => exact .pure trivial
    | none => exact .pure trivial

private theorem invalid_harmless :
    MakingHandler (fun op => harmless op = true) processorStateInvalidHandler (fun _ => True) pre des where
  prepare context data := processorPrepare_harmless context data pre des
  handle _ _ _ := .bind (call_harmless rfl) fun _ _ => .pure trivial
  submit _ _ := rfl

private theorem ignore_harmless :
    MakingHandler (fun op => harmless op = true) processorStateIgnoreHandler (fun _ => True) pre des where
  prepare context data := processorPrepare_harmless context data pre des
  handle _ _ _ := .pure trivial
  submit _ _ := rfl

variable {row : SessionProcessor} {worker : ErProcessor}

private theorem chargeOf_end (ended : des ∈ ends) : chargeOf des = .nothing := by
  have every : ∀ des ∈ ends, chargeOf des = .nothing := by decide
  exact every des ended

private theorem readBack_after {p : Change (Context × ErProcessor)} (missing : Failure) (inv : Inv useResourceDispatch s)
    (changed : Leads useResourceDispatch requests id p (fun _ => Rests id) (Rests id) s) :
    Leads useResourceDispatch requests id (p >>= fun changed => readBack changed.1 changed.2 missing)
      (fun _ => Rests id) (Rests id) s :=
  changed.bind inv Rests.stable fun _ _ _ rests => readBack_lead rests

private theorem running_lead (unbroken : context.isBreak = false) (status : row.status = "NEW")
    (is : worker.id = row.processorId) (type : worker.processorType = row.processorType)
    (fits : Fits requests id worker row) (inv : Inv useResourceDispatch s) (guarded : Guarded id row s) :
    Leads useResourceDispatch requests id
      ((processorStateRunningHandler useResourceDispatch).handle context worker pre "RUNNING")
      (fun _ => Rests id) (Rests id) s := by
  have line : "pre_allocated" ++ "_" ++ "allocated" ∈ resourceLines := by decide
  have counts : Counts .allocate (chargeOf row.status) (chargeOf "RUNNING") := by
    rw [status]
    exact allocate_counts
  have returns : "allocated" = "return" ↔ chargeOf "RUNNING" = .nothing := by decide
  have changed := readBack_after .nullPointer inv
    (status_lead unbroken line (fun _ => rfl) counts returns is type (.inl status) fits inv guarded)
  rw [bind_assoc] at changed
  exact changed

private theorem runningStop_lead (unbroken : context.isBreak = false) (status : row.status = "RUNNING") (ended : des ∈ ends)
    (is : worker.id = row.processorId) (type : worker.processorType = row.processorType)
    (fits : Fits requests id worker row) (inv : Inv useResourceDispatch s) (guarded : Guarded id row s) :
    Leads useResourceDispatch requests id
      ((processorStatusRunningStopHandler useResourceDispatch).handle context worker pre des)
      (fun _ => Rests id) (Rests id) s := by
  have line : "allocated" ++ "_" ++ "return" ∈ resourceLines := by decide
  have counts : Counts .giveBack (chargeOf row.status) (chargeOf des) := by
    rw [status,chargeOf_end ended]
    exact giveBack_counts
  have returns : "return" = "return" ↔ chargeOf des = .nothing := by simp [chargeOf_end ended]
  have changed := readBack_after (.runtime "") inv
    (status_lead unbroken line (fun _ => rfl) counts returns is type (.inr status) fits inv guarded)
  rw [bind_assoc] at changed
  exact changed

private theorem newStop_lead (unbroken : context.isBreak = false) (status : row.status = "NEW") (ended : des ∈ ends)
    (is : worker.id = row.processorId) (type : worker.processorType = row.processorType)
    (fits : Fits requests id worker row) (inv : Inv useResourceDispatch s) (guarded : Guarded id row s) :
    Leads useResourceDispatch requests id ((processorStateNewStopHandler useResourceDispatch).handle context worker pre des)
      (fun _ => Rests id) (Rests id) s := by
  have line : "pre_allocated" ++ "_" ++ "allocate_failed" ∈ resourceLines := by decide
  have counts : Counts .preAllocateFail (chargeOf row.status) (chargeOf des) := by
    rw [status,chargeOf_end ended]
    exact preAllocateFail_counts
  have returns : "return" = "return" ↔ chargeOf des = .nothing := by simp [chargeOf_end ended]
  exact status_lead unbroken line (fun _ => rfl) counts returns is type (.inl status) fits inv guarded

private theorem guard_lead {key : String} (is : ∀ row ∈ found, key = "PK_" ++ row.sessionId) (ready : Ready id found s) :
    Leads useResourceDispatch requests id (call (.lock .processor key)) (fun _ t => Ready id found t ∧
      ∀ row ∈ found, (t.locks .processor ("PK_" ++ row.sessionId)).owner = some id) (Rests id) s := by
  refine Does.perform Ready.stable (fun _ s t keeps here => ?_) Rests.stable ready fun t env u answer inv here served => ?_
  · exact ⟨here.1.keeps keeps,fun row member => (keeps.owner _ _).mpr (here.2 row member)⟩
  · obtain ⟨lock,locked,rfl,rfl⟩ := lock_served (service_cases served).2
    obtain ⟨inv',keeps⟩ := lock_step inv locked
    refine ⟨inv',keeps,⟨here.rests,here.looked,fun key => ?_,here.same⟩,fun row member => ?_⟩
    · rw [setLock_other fun same => by cases same.1]
      exact here.outside key
    · rw [← is row member]
      simpa [State.setLock] using (ReentrantLock.lock_owner locked).2

def lined (erProcessor : ErProcessor) (found : Option SessionProcessor) : ErProcessor :=
  { erProcessor with
    processorType := (found.map SessionProcessor.processorType).getD erProcessor.processorType
    beforeStatus := (found.map SessionProcessor.status).getD "" }

private theorem line_lead {request : Request} (mine : requests id = request)
    (is : ∀ row ∈ found, row.processorId = request.erProcessor.id)
    (known : ∀ row ∈ found, context.processorInDb = some row.toErProcessor)
    (inv : Inv useResourceDispatch s) (ready : Ready id found s)
    (owns : ∀ row ∈ found, (s.locks .processor ("PK_" ++ row.sessionId)).owner = some id) :
    Leads useResourceDispatch requests id
      (AbstractStateMachine.locked
        (processorHandler useResourceDispatch
          ((found.map SessionProcessor.status).getD "" ++ "_" ++ request.desStateParam))
        context (lined request.erProcessor found) "" request.desStateParam false)
      (fun _ => Rests id) (Rests id) s := by
  -- a line that does not start with the underscore comes from a row
  have stored {status : String} (some_status : status ≠ "") (same : (found.map SessionProcessor.status).getD "" = status) :
      ∃ row, found = some row ∧ row.status = status := by
    cases found with
    | none => exact absurd same.symm some_status
    | some row => exact ⟨row,rfl,same⟩
  rcases processorHandler_cases useResourceDispatch ((found.map SessionProcessor.status).getD "") request.desStateParam
    with ⟨-,-,handler⟩ | ⟨from_,to_,handler⟩ | ⟨from_,ended,handler⟩ | ⟨from_,ended,handler⟩ | handler | handler
  · rw [handler]
    refine locked_lead rfl ready.rests inv fun unbroken => ?_
    subst mine
    exact create_lead rfl rfl rfl unbroken inv ready
  · rw [handler]
    refine locked_lead rfl ready.rests inv fun unbroken => ?_
    obtain ⟨row,rfl,status⟩ := stored (by decide) from_
    rw [to_]
    exact running_lead unbroken status (is row rfl).symm rfl (fits_given mine _ _ fun _ => to_) inv ⟨ready,owns row rfl⟩
  · rw [handler]
    refine locked_lead rfl ready.rests inv fun unbroken => ?_
    obtain ⟨row,rfl,status⟩ := stored (by decide) from_
    refine runningStop_lead unbroken status ended (is row rfl).symm rfl (fits_given mine _ _ fun new => ?_) inv
      ⟨ready,owns row rfl⟩
    rw [status] at new
    exact absurd new (by decide)
  · rw [handler]
    obtain ⟨row,rfl,status⟩ := stored (by decide) from_
    have prepared : (processorStateNewStopHandler useResourceDispatch).prepare context
        (lined request.erProcessor (some row)) "" request.desStateParam = pure (context,row.toErProcessor) := by
      change processorPrepare context (lined request.erProcessor (some row)) "" request.desStateParam = _
      rw [processorPrepare,known row rfl]
    refine locked_lead prepared ready.rests inv fun unbroken => ?_
    exact newStop_lead unbroken status ended rfl rfl fits_found inv ⟨ready,owns row rfl⟩
  · rw [handler]
    exact harmless_locked_lead invalid_harmless ready.rests
  · rw [handler]
    exact harmless_locked_lead ignore_harmless ready.rests

private theorem change_lead {request : Request} (mine : requests id = request) (inv : Inv useResourceDispatch s)
    (fresh : Fresh id s) :
    Leads useResourceDispatch requests id (request.program useResourceDispatch) (fun _ => Rests id) (Rests id) s := by
  have look : Leads useResourceDispatch requests id (call (.getProcessor request.erProcessor.id))
      (fun found t => Ready id found t ∧ ∀ row ∈ found, row.processorId = request.erProcessor.id) (Rests id) s := by
    refine Does.perform (P := Fresh id) (fun _ _ => Fresh.keeps) (fun _ => .and Ready.stable (.const _)) Rests.stable fresh
      fun t env u answer inv here served => ?_
    rcases look_served (service_cases served).2 with ⟨rfl,⟨e,rfl⟩,-⟩ | ⟨rfl,rfl⟩
    · exact ⟨inv,fun other _ => .refl other u,here.moving⟩
    · obtain ⟨inv',keeps⟩ := look_step id inv request.erProcessor.id
      refine ⟨inv',keeps,⟨here.moving,?_,fun key => here.outside _ key,fun row is => ?_⟩,fun row is => ?_⟩
      · simp [State.look,here.looked]
      · exact ⟨row,(processor_spec is).1,.refl row⟩
      · exact (processor_spec is).2
  have built : Leads useResourceDispatch requests id
      ((processorStateMachine useResourceDispatch).buildStateChangeLine request.context request.erProcessor ""
        request.desStateParam)
      (fun built t => ∃ found, built = processorLine request.context request.erProcessor "" request.desStateParam found ∧
        Ready id found t ∧ ∀ row ∈ found, row.processorId = request.erProcessor.id) (Rests id) s := by
    refine look.bind inv Rests.stable fun found t inv here => ?_
    refine .pure (fun s t keeps holds => ?_) ⟨found,rfl,here⟩
    obtain ⟨found,is,ready,same⟩ := holds
    exact ⟨found,is,ready.keeps keeps,same⟩
  unfold Request.program AbstractStateMachine.changeStatus
  refine built.bind inv Rests.stable fun built t inv here => ?_
  obtain ⟨found,rfl,ready,same⟩ := here
  refine Does.tryFinally (A := fun _ => Rests id) (E := Rests id) ?_ inv (fun _ => Rests.stable) Rests.stable
    (fun _ t _ rests => call_lead rfl rests) fun t _ rests => call_lead rfl rests
  have key : ∀ row ∈ found, (processorStateMachine useResourceDispatch).getLockKey
      (processorLine request.context request.erProcessor "" request.desStateParam found).1.1
      (processorLine request.context request.erProcessor "" request.desStateParam found).1.2 = "PK_" ++ row.sessionId := by
    rintro row ⟨⟩
    rfl
  refine (guard_lead key ready).bind inv Rests.stable fun _ t inv here => ?_
  refine line_lead mine same (fun row is => ?_) inv here.1 here.2
  cases is
  rfl

end

section
variable {useResourceDispatch : Bool} {requests : ℕ → Request} {s : State} {p : Run}

theorem Inv.init {tables : Tables} (unused : Unused tables) : Inv useResourceDispatch (.init tables) := by
  have nobody {row : SessionProcessor} (member : row ∈ (State.init tables).tables.processors) : False := by
    change row ∈ tables.processors at member
    rw [unused.processors] at member
    cases member
  have no_keys : keys (State.init tables).tables = [] := by
    change tables.processorResources.map _ = []
    rw [unused.processorResources,List.map_nil]
  have uncharged (serverNodeId : Int) (resourceType : String) (charge : Charge) :
      charged (.init tables) serverNodeId resourceType charge = 0 := by
    change weigh _ _ tables.processors = 0
    rw [unused.processors,weigh_nil]
  constructor
  case distinct =>
    change (tables.processors.map _).Nodup
    rw [unused.processors]
    exact List.nodup_nil
  case ids => exact fun _ member => (nobody member).elim
  case owners =>
    rw [no_keys]
    exact fun _ member => absurd member List.not_mem_nil
  case fresh => exact fun _ _ => rfl
  case row => exact fun _ member => (nobody member).elim
  case moves => exact nofun
  case single => exact nofun
  case returned => exact fun _ member => absurd member List.not_mem_nil
  case most => exact fun _ => Nat.zero_le _
  case within =>
    intro serverNodeId resourceType node found
    obtain ⟨preAllocated,allocated,total⟩ := unused.nodes _ _ _ found
    exact ⟨by omega,by omega⟩
  case books =>
    intro serverNodeId _
    refine ⟨fun resourceType node found => ?_,fun resourceType node found => ?_⟩
    · rw [uncharged,(unused.nodes _ _ _ found).1]
      rfl
    · rw [uncharged,(unused.nodes _ _ _ found).2.1]
      rfl

theorem Fresh.init (tables : Tables) (id : ℕ) : Fresh id (.init tables) := ⟨rfl,rfl,nofun⟩

theorem run_kept
    (reached : (system useResourceDispatch requests (service useResourceDispatch requests)).Reachable p) :
    Pool.Kept (Inv useResourceDispatch) (contract useResourceDispatch) Fresh (service useResourceDispatch requests)
      (fun id _ => Program.Ends (fun _ => Rests id) (Rests id)) p := by
  refine Pool.Kept.restricted (fit useResourceDispatch) ?_ (fun id request s admitted inv fresh => ?_) reached
  · rintro _ ⟨tables,unused,rfl⟩
    exact ⟨.init unused,.init tables⟩
  · obtain ⟨_,allowed⟩ := admitted
    exact change_lead (of_decide_eq_true allowed).symm inv fresh

private theorem quiet_rests
    (reached : (system useResourceDispatch requests (service useResourceDispatch requests)).Reachable p)
    (quiet : Quiet p) (id : ℕ) : Rests id p.shared := by
  have kept := run_kept reached
  cases calling : p.calls id with
  | none => exact (kept.fresh id calling).moving
  | some pair =>
    obtain ⟨result,ended⟩ := quiet id pair.1 pair.2 calling
    have ends := kept.ended (fit useResourceDispatch) ended
    cases result with
    | ok _ => exact ends
    | error _ => exact ends

variable {row : SessionProcessor}

private theorem Inv.charge_eq (inv : Inv useResourceDispatch s) (still : ∀ id, Rests id s) (member : row ∈ s.tables.processors)
    (takes : managed useResourceDispatch row = true) : s.charge row.processorId = chargeOf row.status := by
  refine (inv.row row member).settled takes fun id moved moving => ?_
  rw [still id] at moving
  cases moving

private theorem chargeOf_iff {status : String} : (chargeOf status = .preAllocated ↔ status = "NEW") ∧
    (chargeOf status = .allocated ↔ status = "RUNNING") := by
  unfold chargeOf
  split
  · rename_i new
    subst new
    exact ⟨by simp,by simp⟩
  · split
    · rename_i running
      subst running
      exact ⟨by simp,by simp⟩
    · simp [*]

private theorem Inv.held_eq (inv : Inv useResourceDispatch s) (still : ∀ id, Rests id s) {charge : Charge} {status : String}
    (one : charge = .preAllocated ∨ charge = .allocated) (is : ∀ other, chargeOf other = charge ↔ other = status)
    (serverNodeId : Int) (resourceType : String) :
    charged s serverNodeId resourceType charge = held s.tables serverNodeId resourceType status := by
  refine weigh_same fun row member => ?_
  have at_row := inv.row row member
  simp only [decide_eq_true_eq]
  cases takes : managed useResourceDispatch row with
  | true =>
    simp only [inv.charge_eq still member takes,is]
    split
    · rename_i here
      refine amount_portion (at_row.stored ?_).symm resourceType
      rw [inv.charge_eq still member takes,(is _).mpr here.2]
      exact one
    · rfl
  | false =>
    have uncounted : ¬ (row.serverNodeId = serverNodeId ∧ s.charge row.processorId = charge) := by
      rw [at_row.unmanaged takes]
      rintro ⟨-,rfl⟩
      rcases one with one | one <;> cases one
    rw [if_neg uncounted,at_row.bare takes]
    split <;> rfl

theorem Inv.balanced (inv : Inv useResourceDispatch s) (still : ∀ id, Rests id s) : Balanced s.tables := by
  have books (serverNodeId : Int) := inv.books serverNodeId fun id _ => still id
  refine ⟨fun serverNodeId resourceType node found => ?_,fun serverNodeId resourceType node found => ?_⟩
  · rw [(books serverNodeId).preAllocated resourceType node found,
      inv.held_eq still (.inl rfl) (fun _ => chargeOf_iff.1) serverNodeId resourceType]
    exact Int.add_zero _
  · rw [(books serverNodeId).allocated resourceType node found,
      inv.held_eq still (.inr rfl) (fun _ => chargeOf_iff.2) serverNodeId resourceType]
    exact Int.add_zero _

private theorem releases_eq (s : State) (resource : ProcessorResource) :
    releases s resource = s.returned.count resource.toErResource.key := by
  refine List.countP_congr fun key _ => ?_
  rw [meets_iff,beq_iff_eq]
  exact eq_comm

private theorem acquisitions_eq (s : State) (resource : ProcessorResource) :
    acquisitions s resource = (keys s.tables).count resource.toErResource.key := by
  rw [keys,List.count,List.countP_map]
  refine List.countP_congr fun other _ => ?_
  rw [meets_iff,Function.comp_apply,beq_iff_eq]

private theorem live_iff : live row = true ↔ chargeOf row.status ≠ .nothing := by
  unfold live chargeOf
  split
  · simp [*]
  · split <;> simp [*]

theorem Inv.released (inv : Inv useResourceDispatch s) (still : ∀ id, Rests id s) (member : row ∈ s.tables.processors)
    {resource : ProcessorResource} (own : resource ∈ s.tables.resourcesOf row.processorId) :
    releases s resource = if live row then 0 else acquisitions s resource := by
  have at_row := inv.row row member
  have is : resource.toErResource.key.processorId = some row.processorId :=
    congrArg some (of_decide_eq_true (List.mem_filter.mp own).2)
  have takes : managed useResourceDispatch row = true := by
    by_contra unmanaged
    have bare := at_row.bare (by simpa using unmanaged)
    rw [resources,List.map_eq_nil_iff] at bare
    rw [bare] at own
    cases own
  have charge := inv.charge_eq still member takes
  rw [releases_eq,acquisitions_eq]
  split
  · rename_i lives
    have charged : s.charge row.processorId ≠ .nothing := by
      rw [charge]
      exact live_iff.mp lives
    refine List.count_eq_zero.mpr fun returned => ?_
    obtain ⟨other,inside,same,free⟩ := inv.returned _ returned
    obtain rfl := processor_unique inv.distinct member inside (Option.some.inj (is.symm.trans same))
    rcases free with nothing | ⟨id,moving⟩
    · exact charged nothing
    · rw [still id] at moving
      cases moving
  · rename_i gone
    refine at_row.once ?_ _ is
    rw [charge]
    by_contra charged
    exact gone (live_iff.mpr charged)

/-- In every run of orderly changes the resources are accounted for. -/
theorem resources_accounted (useResourceDispatch : Bool) (requests : ℕ → Request) (p : Run)
    (reached : (system useResourceDispatch requests (service useResourceDispatch requests)).Reachable p) :
    Accounted p := by
  have inv := (run_kept reached).invariant
  refine ⟨fun serverNodeId resourceType node found => ?_,fun quiet => inv.balanced (quiet_rests reached quiet),
    fun quiet row member resource own => inv.released (quiet_rests reached quiet) member own⟩
  have within := inv.within serverNodeId resourceType node found
  exact ⟨within.preAllocated.1,within.preAllocated.2,within.allocated.1,within.allocated.2⟩

end

def given (id : Int) (status : String) (resources : List ErResource) : ErProcessor :=
  ⟨id,"s",1,"egg_pair",status,"",none,none,none,[],"",resources⟩

def tenCores : ErResource := ⟨"VCPU_CORE",none,none,1,10,none,"pre_allocated"⟩

/-- Two processors are created and run, and two ends are asked for the first of them. -/
def pair : ℕ → Request
  | 0 | 1 => ⟨{},given (-1) "NEW" [tenCores],"NEW"⟩
  | 2 => ⟨{},given 0 "RUNNING" [],"RUNNING"⟩
  | 3 => ⟨{},given 1 "RUNNING" [],"RUNNING"⟩
  | 4 => ⟨{},given 0 "STOPPED" [],"STOPPED"⟩
  | _ => ⟨{},given 0 "KILLED" [],"KILLED"⟩

def twentyCores : Tables := ⟨[],[],[],0,[],[⟨1,"VCPU_CORE",20,0,0,0,none⟩]⟩

private theorem twentyCores_unused : Unused twentyCores := by
  refine ⟨rfl,rfl,fun serverNodeId resourceType row found => ?_⟩
  have member : row ∈ twentyCores.nodeResources := List.mem_of_find?_eq_some found
  rw [List.mem_singleton.mp member]
  decide

def invoked : List (Pool.Act Request Env) := (List.range 6).map fun id => .invoke id (pair id)

def steps (id n : ℕ) : List (Pool.Act Request Env) := List.replicate n (.step id {})

private theorem quiet_of_results {serve : ℕ → Service State Op Ans Failure Env} {p : Run} {acts : List (Pool.Act Request Env)}
    (ran : (system true pair serve).Run ⟨.init twentyCores,fun _ => none⟩ acts p) (few : ∀ act ∈ acts, act.id < 6)
    (ended : ∀ id ∈ List.range 6, (p.result id).isSome = true) : Quiet p := by
  intro id request program calling
  by_cases small : id < 6
  · obtain ⟨⟨other,result⟩,is⟩ := Option.isSome_iff_exists.mp (ended id (List.mem_range.mpr small))
    have finished := Pool.ended_of_result is
    rw [Pool.Ended,calling] at finished
    cases finished
    exact ⟨result,calling⟩
  · have idle : p.calls id = none := Pool.run_others ran.unrestricted fun act member is => small (is ▸ few act member)
    rw [calling] at idle
    cases idle

/-- Both pairs of requests meet at the locks, and the second end comes after the first. -/
def inTurn : List (Pool.Act Request Env) :=
  invoked ++ steps 0 1 ++ steps 1 1 ++ steps 0 12 ++ steps 1 12 ++ steps 2 1 ++ steps 3 1 ++ steps 2 14 ++
    steps 3 14 ++ steps 4 15 ++ steps 5 3

theorem resources_accounted_pair : ∃ p, Accounted p ∧ Quiet p ∧
    p.shared.tables.nodeResource 1 "VCPU_CORE" = some ⟨1,"VCPU_CORE",20,10,0,10,none⟩ ∧
    p.shared.tables.processors.map SessionProcessor.status = ["STOPPED","RUNNING"] := by
  have few : ∀ act ∈ inTurn, act.id < 6 := by decide +kernel
  have ran : ((system true pair (service true pair)).exec ⟨.init twentyCores,fun _ => none⟩ inTurn).any (fun p => decide
      ((∀ id ∈ List.range 6, (p.result id).isSome = true) ∧
        p.shared.tables.nodeResource 1 "VCPU_CORE" = some ⟨1,"VCPU_CORE",20,10,0,10,none⟩ ∧
        p.shared.tables.processors.map SessionProcessor.status = ["STOPPED","RUNNING"])) = true := by decide +kernel
  obtain ⟨p,run,found⟩ := (Option.any_eq_true _ _).mp ran
  obtain ⟨ended,node,statuses⟩ := of_decide_eq_true found
  exact ⟨p,resources_accounted true pair p ⟨_,_,⟨⟨twentyCores,twentyCores_unused,rfl⟩,fun _ => rfl⟩,run⟩,
    quiet_of_results run few ended,node,statuses⟩

/-- Both ends have found the processor `RUNNING` before the first has the lock. -/
def racing : List (Pool.Act Request Env) :=
  invoked ++ steps 0 13 ++ steps 1 13 ++ steps 2 15 ++ steps 3 15 ++ steps 4 1 ++ steps 5 15 ++ steps 4 14

/-- Its resources are given back twice, and those of the other processor are no longer counted. -/
theorem given_back_twice : ∃ p, (system true pair (State.serve true pair)).Reachable p ∧ Quiet p ∧ ¬ Accounted p := by
  have few : ∀ act ∈ racing, act.id < 6 := by decide +kernel
  have ran : ((system true pair (State.serve true pair)).exec ⟨.init twentyCores,fun _ => none⟩ racing).any (fun p => decide
      ((∀ id ∈ List.range 6, (p.result id).isSome = true) ∧
        p.shared.tables.nodeResource 1 "VCPU_CORE" = some ⟨1,"VCPU_CORE",20,0,0,0,none⟩ ∧
        held p.shared.tables 1 "VCPU_CORE" "RUNNING" = 10)) = true := by decide +kernel
  obtain ⟨p,run,found⟩ := (Option.any_eq_true _ _).mp ran
  obtain ⟨ended,node,running⟩ := of_decide_eq_true found
  have quiet := quiet_of_results run few ended
  refine ⟨p,⟨_,_,⟨⟨twentyCores,twentyCores_unused,rfl⟩,fun _ => rfl⟩,run⟩,quiet,fun accounted => ?_⟩
  have counted := (accounted.balanced quiet).allocated 1 "VCPU_CORE" _ node
  rw [running] at counted
  cases counted

end Eggroll.Cluster.NodeAccounts
