import Eggroll.ShuffleWork

/-! No shuffle hangs: the queues between its tasks are bounded and its readers poll, but from every
state it can come to, whatever the scheduler does as long as it gives each task its turns, all
futures of the job get their results. -/
namespace Eggroll.Shuffle
open Library Format Broker BinBatch Store

/-- The pairs a job produces can be packed, stored and sent to an output. -/
structure Deliverable (job : Job) : Prop where
  encodable : ∀ p < job.inputs, ∀ pair ∈ job.pairs p, Encodable pair
  accepted : ∀ p < job.inputs, ∀ pair ∈ job.pairs p, job.accepts pair.1 = true
  targeted : ∀ p < job.inputs, ∀ pair ∈ job.pairs p, job.target pair < job.outputs
  room : 16 ≤ job.sendbuf_size

/-- Nothing keeps the scatter loop of input `p` from going on. -/
def Job.scatterReady (job : Job) (s : State) (p : Nat) : Prop :=
  match (s.source p).current with
  | some pair => (s.lane p (job.target pair)).broker.full = false
  | none =>
    match (s.source p).scatter with
    | .running => (s.source p).reader.readable (s.source p).broker
    | .closing 0 => False
    | .closing (j + 1) => (s.lane p j).broker.full = false

def Lane.serveReady (lane : Lane) (sink : Sink) : Prop :=
  match lane.servicer with
  | .receiving => sink.started = true ∧ (lane.stream ≠ [] ∨ lane.ended = true)
  | .putting _ => sink.broker.full = false
  | .signalling => True
  | .done => False

def Job.ready (job : Job) (s : State) : Label → Prop
  | .map p => p < job.inputs ∧ (s.source p).stage ≠ .done ∧ (s.source p).broker.full = false
  | .scatter p => p < job.inputs ∧ job.scatterReady s p
  | .encode p j => (p < job.inputs ∧ j < job.outputs) ∧ (s.lane p j).ended = false ∧
      ((s.lane p j).encoder = none ∨ (s.lane p j).reader.readable (s.lane p j).broker)
  | .serve p j => (p < job.inputs ∧ j < job.outputs) ∧ (s.lane p j).serveReady (s.sink j)
  | .store j => j < job.outputs ∧ (s.sink j).committed = false ∧
      ((s.sink j).started = false ∨ (s.sink j).pairs ≠ [] ∨ (s.sink j).broker.readable)

def State.distance (s : State) : Label → Nat
  | .map _ => 0
  | .scatter p => (s.source p).broker.distance (s.source p).reader.pc
  | .encode p j => (s.lane p j).broker.distance (s.lane p j).reader.pc
  | .serve _ _ => 0
  | .store j => (s.sink j).broker.distance (s.sink j).reader

theorem State.distance_lt (s : State) (a : Label) : s.distance a < 6 := by
  cases a with
  | map | serve => exact Nat.zero_lt_succ 5
  | scatter | encode | store => exact FifoBroker.distance_lt _ _

/-- A stream ends behind its last batch, and what a map task has ahead is what it produces. -/
structure Underway (job : Job) (s : State) : Prop where
  holds : Invariant job s
  begun : ∀ p < job.inputs, ∀ j < job.outputs,
    (s.lane p j).ended = true → (s.lane p j).inited = true ∨ (s.lane p j).stream ≠ []
  ahead : ∀ p < job.inputs, ∀ pair ∈ (s.source p).ahead, pair ∈ job.pairs p

section
variable {job : Job}

theorem Deliverable.nonempty (deliverable : Deliverable job) : KeysNonempty job :=
  fun p inside pair member => (deliverable.encodable p inside pair member).nonempty

private theorem encodeStep_begun {lane lane' : Lane} (stepped : job.encodeStep lane = some lane')
    (ended : lane'.ended = true) : lane'.stream ≠ [] := by
  unfold Job.encodeStep at stepped
  split at stepped
  · contradiction
  · rename_i going
    split at stepped
    · split at stepped <;> cases stepped
      exact absurd ended going
    · split at stepped
      · split at stepped <;> cases stepped
        rename_i batches finished
        have one := finish_length finished
        intro empty
        rw [(List.append_eq_nil_iff.mp empty).2] at one
        contradiction
      · split at stepped
        · contradiction
        · cases stepped
          exact absurd ended going
        · split at stepped <;> cases stepped
          exact absurd ended going

private theorem serveStep_begun {p : Nat} {lane lane' : Lane} {sink sink' : Sink}
    (stepped : Job.serveStep p lane sink = some (lane',sink')) : lane'.ended = lane.ended ∧
      (lane.inited = true ∨ lane.stream ≠ [] → lane'.inited = true ∨ lane'.stream ≠ []) := by
  unfold Job.serveStep at stepped
  split at stepped
  · split at stepped <;> split at stepped <;> cases stepped
    · exact ⟨rfl,fun _ => .inl rfl⟩
    · rename_i stream _
      exact ⟨rfl,fun before => .inl (before.resolve_right fun some_left => some_left stream)⟩
  · simp only [Option.map_eq_some_iff,Prod.mk.injEq] at stepped
    obtain ⟨_,_,rfl,_⟩ := stepped
    exact ⟨rfl,id⟩
  · cases stepped
    exact ⟨rfl,id⟩
  · contradiction

private theorem scatterStep_rest {s t : State} {p : Nat} (ok : SourceOk job (s.source p))
    (stepped : job.scatterStep s p = some t) :
    (∀ q j, (t.lane q j).ended = (s.lane q j).ended ∧ (t.lane q j).inited = (s.lane q j).inited ∧
      (t.lane q j).stream = (s.lane q j).stream) ∧
      (∀ q, q ≠ p → t.source q = s.source q) ∧ (t.source p).ahead ⊆ (s.source p).ahead := by
  have lanes (src : Source) (j : Nat) (w : BatchWriter Pair) (b : FifoBroker (List Pair)) (q i : Nat) :
      let t := (s.setLane p j { s.lane p j with writer := w, broker := b }).setSource p src
      (t.lane q i).ended = (s.lane q i).ended ∧ (t.lane q i).inited = (s.lane q i).inited ∧
        (t.lane q i).stream = (s.lane q i).stream := by
    simp only [setSource_lane,setLane_lane]
    split
    · rename_i same
      rw [same.1,same.2]
      exact ⟨rfl,rfl,rfl⟩
    · exact ⟨rfl,rfl,rfl⟩
  unfold Job.scatterStep at stepped
  cases current : (s.source p).current with
  | some pair =>
    simp only [current,Option.ite_none_right_eq_some,Option.map_eq_some_iff,Prod.exists] at stepped
    obtain ⟨_,w,b,returned,_,rfl⟩ := stepped
    refine ⟨lanes _ _ w b,fun q other => by simp [other],fun x member => ?_⟩
    simp only [setSource_source,if_true,Source.ahead,current] at member ⊢
    cases returned with
    | true => exact List.mem_append_right _ member
    | false => exact member
  | none =>
    simp only [current] at stepped
    cases stage : (s.source p).scatter with
    | running =>
      simp only [stage,Option.map_eq_some_iff] at stepped
      obtain ⟨src,read,rfl⟩ := stepped
      refine ⟨fun q i => ⟨rfl,rfl,rfl⟩,fun q other => by simp [other],?_⟩
      rw [setSource_source,if_pos rfl,(scatterRead_ok ok stage current read).2.1]
      exact fun _ member => member
    | closing left =>
      cases left with
      | zero => simp [stage] at stepped
      | succ j =>
        simp only [stage,Option.map_eq_some_iff,Prod.exists] at stepped
        obtain ⟨w,b,returned,_,rfl⟩ := stepped
        refine ⟨lanes _ _ w b,fun q other => by simp [other],fun x member => ?_⟩
        simpa [Source.ahead,current] using member

private theorem initial_underway (job : Job) : Underway job job.initial where
  holds := initial_invariant job
  begun p _ j _ ended := by simp [Job.initial] at ended
  ahead p _ pair member := by simpa [Job.initial,Source.ahead] using member

private theorem step_underway {s t : State} {a : Label} (nonempty : KeysNonempty job) (underway : Underway job s)
    (stepped : job.step s a = some t) : Underway job t := by
  obtain ⟨holds,begun,ahead⟩ := underway
  have holds' := step_invariant nonempty holds stepped
  cases a with
  | map p =>
    simp only [Job.step,Option.ite_none_right_eq_some,Option.map_eq_some_iff] at stepped
    obtain ⟨inside,src,moved,rfl⟩ := stepped
    refine ⟨holds',begun,fun q insideQ => ?_⟩
    rw [setSource_source]
    split
    · rename_i same
      subst same
      rw [(mapStep_ok (holds.sources q inside) moved).2.1]
      exact ahead q inside
    · exact ahead q insideQ
  | scatter p =>
    simp only [Job.step,Option.ite_none_right_eq_some] at stepped
    obtain ⟨inside,moved⟩ := stepped
    obtain ⟨lanes,others,mine⟩ := scatterStep_rest (holds.sources p inside) moved
    refine ⟨holds',fun q insideQ j within => ?_,fun q insideQ => ?_⟩
    · obtain ⟨ended,inited,stream⟩ := lanes q j
      rw [ended,inited,stream]
      exact begun q insideQ j within
    · by_cases same : q = p
      · subst same
        exact fun pair member => ahead q insideQ pair (mine member)
      · rw [others q same]
        exact ahead q insideQ
  | encode p j =>
    simp only [Job.step,Option.ite_none_right_eq_some,Option.map_eq_some_iff] at stepped
    obtain ⟨_,lane,moved,rfl⟩ := stepped
    refine ⟨holds',fun q insideQ i withinI => ?_,ahead⟩
    rw [setLane_lane]
    split
    · exact fun ended => .inr (encodeStep_begun moved ended)
    · exact begun q insideQ i withinI
  | serve p j =>
    simp only [Job.step,Option.ite_none_right_eq_some,Option.map_eq_some_iff,Prod.exists] at stepped
    obtain ⟨⟨inside,within⟩,lane,sink,moved,rfl⟩ := stepped
    refine ⟨holds',fun q insideQ i withinI => ?_,ahead⟩
    rw [setSink_lane,setLane_lane]
    split
    · obtain ⟨ended,kept⟩ := serveStep_begun moved
      rw [ended]
      exact fun complete => kept (begun p inside j within complete)
    · exact begun q insideQ i withinI
  | store j =>
    simp only [Job.step,Option.ite_none_right_eq_some,Option.map_eq_some_iff] at stepped
    obtain ⟨_,sink,_,rfl⟩ := stepped
    exact ⟨holds',begun,ahead⟩

theorem SourceOk.writing {src : Source} (ok : SourceOk job src) (going : src.stage ≠ .done) :
    src.broker.is_write_finished = false := by
  apply FifoBroker.open_of_active
  rw [ok.active]
  cases stage : src.stage with
  | mapping =>
    simp only [Job.signals,stage,Job.writers]
    split <;> decide
  | leaving => simp [Job.signals,stage]
  | done => contradiction

theorem LaneOk.writing {lane : Lane} (ok : LaneOk false lane) : lane.broker.is_write_finished = false :=
  FifoBroker.open_of_active (by rw [ok.active]; decide)

theorem Invariant.serving {s : State} (holds : Invariant job s) {p j : Nat} (inside : p < job.inputs)
    (within : j < job.outputs) (going : (s.lane p j).servicer ≠ .done) :
    (s.sink j).broker.is_write_finished = false := by
  have counted : 0 < unserved job s j := Finset.card_pos.mpr ⟨p,by simp [inside,going]⟩
  apply FifoBroker.open_of_active
  rw [(holds.sinks j within).active]
  exact Int.natCast_pos.mpr counted

private theorem map_enabled {src : Source} (ok : SourceOk job src) (going : src.stage ≠ .done)
    (room : src.broker.full = false) : ∃ src', job.mapStep src = some src' := by
  have writing := ok.writing going
  cases stage : src.stage with
  | mapping =>
    cases todo : src.todo with
    | cons pair rest =>
      obtain ⟨next,put⟩ := BatchWriter.put_step_enabled job.batch_size src.writer pair writing room
      simp [Job.mapStep,stage,todo,put]
    | nil =>
      obtain ⟨next,close⟩ := BatchWriter.close_step_enabled (w := src.writer) writing room
      simp [Job.mapStep,stage,todo,close]
  | leaving checked => cases checked <;> simp [Job.mapStep,stage,writing]
  | done => contradiction

private theorem scatter_enabled {s : State} (deliverable : Deliverable job) (underway : Underway job s) {p : Nat}
    (inside : p < job.inputs) (ready : job.scatterReady s p) : ∃ t, job.scatterStep s p = some t := by
  obtain ⟨holds,-,ahead⟩ := underway
  have ok := holds.sources p inside
  unfold Job.scatterReady at ready
  cases current : (s.source p).current with
  | some pair =>
    simp only [current] at ready
    have listed : pair ∈ (s.source p).ahead := by simp [Source.ahead,current]
    have within := deliverable.targeted p inside pair (ahead p inside pair listed)
    have running : (s.source p).scatter = .running := by
      by_contra complete
      simp [(ok.finished complete).2] at current
    have laneOk := holds.lanes p inside _ within
    rw [running] at laneOk
    obtain ⟨next,put⟩ := BatchWriter.put_step_enabled job.batch_size
      (s.lane p (job.target pair)).writer pair laneOk.writing ready
    simp [Job.scatterStep,current,within,put]
  | none =>
    simp only [current] at ready
    cases stage : (s.source p).scatter with
    | running =>
      by_cases stop : (s.source p).reader.pc = .stopped
      · simp [Job.scatterStep,current,stage,Job.scatterRead,stop]
      · obtain ⟨next,read⟩ := BatchReader.next_step_enabled (b := (s.source p).broker) stop
        simp [Job.scatterStep,current,stage,Job.scatterRead,stop,read]
    | closing left =>
      cases left with
      | zero => simp [stage] at ready
      | succ j =>
        simp only [stage] at ready
        have laneOk := holds.lanes p inside j (ok.bounded (j + 1) stage)
        have unclosed : (s.source p).scatter.closed j = false := by simp [stage,ScatterStage.closed]
        rw [unclosed] at laneOk
        obtain ⟨next,close⟩ := BatchWriter.close_step_enabled (w := (s.lane p j).writer) laneOk.writing ready
        simp [Job.scatterStep,current,stage,close]

private theorem encode_enabled {closed : Bool} {lane : Lane} (room : 16 ≤ job.sendbuf_size) (ok : LaneOk closed lane)
    (encodable : ∀ pair ∈ lane.way, Encodable pair) (going : lane.ended = false) :
    ∃ lane', job.encodeStep lane = some lane' := by
  cases inside : lane.encoder with
  | none =>
    obtain ⟨w,committed,-⟩ := BinBatch.commit_ok job.sendbuf_size none room
    simp [Job.encodeStep,going,inside,committed]
  | some e =>
    have holds := (ok.encoder e inside).holds.1
    by_cases stop : lane.reader.pc = .stopped
    · simp [Job.encodeStep,going,inside,stop,finish_ok room holds]
    · obtain ⟨⟨r,b,item⟩,next⟩ := BatchReader.next_step_enabled (b := lane.broker) stop
      cases item with
      | none => simp [Job.encodeStep,going,inside,stop,next]
      | some pair =>
        have content := (BatchReader.next_step_spec ok.reader next).2.2
        have read : pair ∈ lane.reader.got ++ lane.broker.queue.flatten := by
          rw [← content]
          simp
        have listed : pair ∈ lane.way := by
          rcases List.mem_append.mp read with now | later
          · simp [Lane.way,now]
          · simp only [Lane.way,List.mem_append,later,true_or,or_true]
        obtain ⟨_,_,e',turned,-⟩ := turn_ok room holds (encodable pair listed)
        simp [Job.encodeStep,going,inside,stop,next,turned]

private theorem serve_enabled {p : Nat} {lane : Lane} {sink : Sink} (begun : lane.ended = true → lane.inited = true ∨ lane.stream ≠ [])
    (serving : lane.servicer ≠ .done → sink.broker.is_write_finished = false) (ready : lane.serveReady sink) :
    ∃ next, Job.serveStep p lane sink = some next := by
  unfold Lane.serveReady at ready
  cases stage : lane.servicer with
  | receiving =>
    have open_ := serving (by simp [stage])
    simp only [stage] at ready
    cases stream : lane.stream with
    | cons data rest => simp [Job.serveStep,stage,stream,ready.1,open_]
    | nil =>
      have ended := ready.2.resolve_left fun some_left => some_left stream
      have inited := (begun ended).resolve_right fun some_left => some_left stream
      simp [Job.serveStep,stage,stream,ended,inited,open_]
  | putting data =>
    simp only [stage] at ready
    simp [Job.serveStep,stage,FifoBroker.queue_put,ready]
  | signalling => simp [Job.serveStep,stage]
  | done => simp [stage] at ready

private theorem store_enabled {j unserved : Nat} {sink : Sink} (ok : SinkOk job j unserved sink)
    (accepted : ∀ item ∈ sink.pairs, job.accepts item.2.1 = true) (going : sink.committed = false) :
    ∃ sink', job.storeStep sink = some sink' := by
  cases started : sink.started with
  | false => simp [Job.storeStep,started]
  | true =>
    cases todo : sink.pairs with
    | cons item rest =>
      have takes := accepted item (by simp [todo])
      cases op : job.reduce_op <;> simp [Job.storeStep,started,todo,store,op,Store.put,takes]
    | nil =>
      cases stage : sink.reader with
      | stopped => simp [Job.storeStep,started,todo,stage,going]
      | queueGet =>
        cases queue : sink.broker.queue with
        | nil => simp [Job.storeStep,started,todo,stage,pull,FifoBroker.queue_get,queue]
        | cons item rest =>
          have whole := (ok.whole item (by simp [queue])).decoded
          simp [Job.storeStep,started,todo,stage,pull,FifoBroker.queue_get,queue,whole]
      | _ => simp [Job.storeStep,started,todo,stage,pull]

private theorem ready_enabled {s : State} (deliverable : Deliverable job) (underway : Underway job s) {a : Label}
    (ready : job.ready s a) : ∃ t, job.step s a = some t := by
  have holds := underway.holds
  cases a with
  | map p =>
    obtain ⟨inside,going,room⟩ := ready
    obtain ⟨src,moved⟩ := map_enabled (holds.sources p inside) going room
    simp [Job.step,inside,moved]
  | scatter p =>
    obtain ⟨t,moved⟩ := scatter_enabled deliverable underway ready.1 ready.2
    exact ⟨t,by rw [Job.step,if_pos ready.1,moved]⟩
  | encode p j =>
    obtain ⟨⟨inside,within⟩,going,-⟩ := ready
    obtain ⟨lane,moved⟩ := encode_enabled deliverable.room (holds.lanes p inside j within)
      (fun pair member => deliverable.encodable p inside pair (holds.listed inside within (.inr member))) going
    simp [Job.step,inside,within,moved]
  | serve p j =>
    obtain ⟨⟨inside,within⟩,ready⟩ := ready
    obtain ⟨⟨lane,sink⟩,moved⟩ := serve_enabled (p := p) (underway.begun p inside j within)
      (holds.serving inside within) ready
    simp [Job.step,inside,within,moved]
  | store j =>
    obtain ⟨within,going,-⟩ := ready
    have sinkOk := holds.sinks j within
    obtain ⟨sink,moved⟩ := store_enabled sinkOk (fun item member => by
      have inside := sinkOk.known item (List.mem_append_right _ member)
      have found : item.2 ∈ (s.sink j).share item.1 := by
        refine List.mem_append_right _ (List.mem_append_left _ ?_)
        exact List.mem_map.mpr ⟨item,List.mem_filter.mpr ⟨member,by simp⟩,rfl⟩
      exact deliverable.accepted item.1 inside item.2 (holds.listed inside within (.inl found))) going
    simp [Job.step,within,moved]

private theorem not_readable {α : Type} {b : FifoBroker α} (idle : ¬ b.readable) :
    b.queue = [] ∧ b.is_write_finished = false := by
  simpa [FifoBroker.readable] using idle

section
variable {s : State} (idle : ∀ a, ¬ job.ready s a)
include idle

private theorem idle_sink (holds : Invariant job s) {j : Nat} (within : j < job.outputs) :
    (s.sink j).broker.queue = [] ∧ ((s.sink j).committed = true ∨
      (s.sink j).started = true ∧ (s.sink j).broker.is_write_finished = false) := by
  have ok := holds.sinks j within
  have still := idle (.store j)
  cases committed : (s.sink j).committed with
  | true => exact ⟨ok.watched.drained (ok.committed committed).1,.inl rfl⟩
  | false =>
    simp only [Job.ready,within,committed,true_and,not_or,Bool.not_eq_false] at still
    obtain ⟨empty,open_⟩ := not_readable still.2.2
    exact ⟨empty,.inr ⟨still.1,open_⟩⟩

private theorem idle_lane (underway : Underway job s) {p j : Nat} (inside : p < job.inputs) (within : j < job.outputs) :
    (s.lane p j).broker.queue = [] ∧ ((s.lane p j).servicer = .done ∨
      (s.lane p j).broker.is_write_finished = false) := by
  have ok := underway.holds.lanes p inside j within
  obtain ⟨drained,either⟩ := idle_sink idle underway.holds within
  cases ended : (s.lane p j).ended with
  | true =>
    refine ⟨(ok.reader.stopped (ok.ended ended).1).2,.inl ?_⟩
    have still := idle (.serve p j)
    simp only [Job.ready,inside,within,Lane.serveReady,and_self,true_and] at still
    cases stage : (s.lane p j).servicer with
    | receiving =>
      -- the store task has not committed while this servicer is open
      have serving := underway.holds.serving inside within (by simp [stage])
      have started : (s.sink j).started = true := by
        obtain committed | ⟨started,_⟩ := either
        · have stop := ((underway.holds.sinks j within).committed committed).1
          have served := underway.holds.all_served within stop p inside
          simp [stage] at served
        · exact started
      simp [stage,started,ended] at still
    | putting data => simp [stage,FifoBroker.room_of_empty drained] at still
    | signalling => simp [stage] at still
    | done => rfl
  | false =>
    have still := idle (.encode p j)
    simp only [Job.ready,inside,within,ended,and_self,true_and,not_or] at still
    obtain ⟨empty,open_⟩ := not_readable fun readable => still.2 (.inr readable)
    exact ⟨empty,.inr open_⟩

private theorem idle_source (underway : Underway job s) (deliverable : Deliverable job) {p : Nat} (inside : p < job.inputs) :
    (s.source p).broker.queue = [] ∧ ((s.source p).scatter = .closing 0 ∨
      (s.source p).broker.is_write_finished = false) := by
  have ok := underway.holds.sources p inside
  have still := idle (.scatter p)
  simp only [Job.ready,inside,true_and,Job.scatterReady] at still
  have room {j : Nat} (within : j < job.outputs) : (s.lane p j).broker.full = false :=
    FifoBroker.room_of_empty (idle_lane idle underway inside within).1
  cases current : (s.source p).current with
  | some pair =>
    have listed : pair ∈ (s.source p).ahead := by simp [Source.ahead,current]
    have within := deliverable.targeted p inside pair (underway.ahead p inside pair listed)
    simp [current,room within] at still
  | none =>
    simp only [current] at still
    cases stage : (s.source p).scatter with
    | running =>
      simp only [stage] at still
      obtain ⟨empty,open_⟩ := not_readable fun readable => still (.inr readable)
      exact ⟨empty,.inr open_⟩
    | closing left =>
      refine ⟨(ok.reader.stopped (ok.finished (by simp [stage])).1).2,.inl ?_⟩
      cases left with
      | zero => rfl
      | succ j => simp [stage,room (ok.bounded (j + 1) stage)] at still

private theorem idle_finished (underway : Underway job s) (deliverable : Deliverable job) : job.Finished s := by
  have holds := underway.holds
  have mapped {p : Nat} (inside : p < job.inputs) :
      (s.source p).stage = .done ∧ (s.source p).scatter = .closing 0 := by
    obtain ⟨empty,closed⟩ := idle_source idle underway deliverable inside
    have done : (s.source p).stage = .done := by
      by_contra going
      exact idle (.map p) ⟨inside,going,FifoBroker.room_of_empty empty⟩
    refine ⟨done,closed.resolve_right fun open_ => ?_⟩
    simp [FifoBroker.is_write_finished,(holds.sources p inside).active,Job.signals,done] at open_
  have served {p j : Nat} (inside : p < job.inputs) (within : j < job.outputs) :
      (s.lane p j).servicer = .done := by
    refine (idle_lane idle underway inside within).2.resolve_right fun open_ => ?_
    have active := (holds.lanes p inside j within).active
    rw [(mapped inside).2] at active
    simp [FifoBroker.is_write_finished,active,ScatterStage.closed] at open_
  refine ⟨fun p inside => mapped inside,fun p inside j within => served inside within,fun j within => ?_⟩
  refine (idle_sink idle holds within).2.resolve_right fun waiting => ?_
  have counted : unserved job s j = 0 := by
    rw [unserved,Finset.card_eq_zero,Finset.filter_eq_empty_iff]
    intro p member going
    exact going (served (Finset.mem_range.mp member) within)
  have open_ := waiting.2
  simp [FifoBroker.is_write_finished,(holds.sinks j within).active,counted] at open_

end

theorem looked_source {s : State} {p : Nat} {src : Source} (looked : (s.source p).Looked src) :
    job.ready (s.setSource p src) = job.ready s ∧
      ∀ b, b ≠ .scatter p → (s.setSource p src).distance b = s.distance b := by
  obtain ⟨same,-⟩ := looked
  rw [same]
  refine ⟨funext fun b => ?_,fun b other => ?_⟩
  · cases b with
    | map q | scatter q =>
      by_cases mine : q = p
      · subst mine
        simp [Job.ready,Job.scatterReady,BatchReader.readable]
      · simp [Job.ready,Job.scatterReady,mine]
    | encode | serve | store => rfl
  · cases b with
    | scatter q =>
      have away : q ≠ p := fun mine => other (mine ▸ rfl)
      simp [State.distance,away]
    | map | encode | serve | store => rfl

theorem looked_lane {s : State} {p j : Nat} {lane : Lane} (looked : (s.lane p j).Looked lane) :
    job.ready (s.setLane p j lane) = job.ready s ∧
      ∀ b, b ≠ .encode p j → (s.setLane p j lane).distance b = s.distance b := by
  obtain ⟨same,-⟩ := looked
  have broker (q i : Nat) : ((s.setLane p j lane).lane q i).broker = (s.lane q i).broker := by
    rw [setLane_lane]
    split
    · rename_i mine
      rw [same,mine.1,mine.2]
    · rfl
  refine ⟨funext fun b => ?_,fun b other => ?_⟩
  · cases b with
    | scatter q => simp only [Job.ready,Job.scatterReady,broker,setLane_source]
    | encode q i | serve q i =>
      by_cases mine : q = p ∧ i = j
      · obtain ⟨rfl,rfl⟩ := mine
        rw [same]
        simp [Job.ready,Lane.serveReady,BatchReader.readable]
      · simp [Job.ready,Lane.serveReady,mine]
    | map | store => rfl
  · cases b with
    | encode q i =>
      have away : ¬ (q = p ∧ i = j) := fun mine => other (by rw [mine.1,mine.2])
      simp [State.distance,away]
    | map | scatter | serve | store => rfl

theorem looked_sink {s : State} {j : Nat} {sink : Sink} (looked : (s.sink j).Looked sink) :
    job.ready (s.setSink j sink) = job.ready s ∧
      ∀ b, b ≠ .store j → (s.setSink j sink).distance b = s.distance b := by
  obtain ⟨same,-⟩ := looked
  rw [same]
  refine ⟨funext fun b => ?_,fun b other => ?_⟩
  · cases b with
    | serve q i | store i =>
      by_cases mine : i = j
      · subst mine
        simp [Job.ready,Lane.serveReady]
      · simp [Job.ready,Lane.serveReady,mine]
    | map | scatter | encode => rfl
  · cases b with
    | store i =>
      have away : i ≠ j := fun mine => other (mine ▸ rfl)
      simp [State.distance,away]
    | map | scatter | encode | serve => rfl

private theorem scatterStep_work {s t : State} {p : Nat} (holds : Invariant job s) (inside : p < job.inputs)
    (stepped : job.scatterStep s p = some t) : job.work t < job.work s ∨
      ((s.source p).current = none ∧ (s.source p).scatter = .running) ∧
        ∃ src, t = s.setSource p src ∧ (s.source p).Looked src := by
  unfold Job.scatterStep at stepped
  cases current : (s.source p).current with
  | some pair =>
    simp only [current,Option.ite_none_right_eq_some,Option.map_eq_some_iff,Prod.exists] at stepped
    obtain ⟨within,w,b,returned,put,rfl⟩ := stepped
    have less := BatchWriter.put_step_work 5 put
    have both := work_setBoth s inside within { s.lane p (job.target pair) with writer := w, broker := b }
      { s.source p with current := if returned then none else some pair }
    left
    cases returned <;>
      simp only [Lane.work,Lane.toEncode,Source.work,BatchReader.work,current,Option.isSome_some,Option.isSome_none,
        if_true,Bool.false_eq_true,if_false] at less both ⊢ <;>
      omega
  | none =>
    simp only [current] at stepped
    cases stage : (s.source p).scatter with
    | running =>
      simp only [stage,Option.map_eq_some_iff] at stepped
      obtain ⟨src,read,rfl⟩ := stepped
      refine (scatterRead_work stage current read).imp (fun less => ?_) fun looked => ⟨⟨rfl,rfl⟩,src,rfl,looked⟩
      have source := work_setSource s inside src
      omega
    | closing left =>
      cases left with
      | zero => simp [stage] at stepped
      | succ j =>
        simp only [stage,Option.map_eq_some_iff,Prod.exists] at stepped
        obtain ⟨w,b,returned,close,rfl⟩ := stepped
        have within : j < job.outputs := (holds.sources p inside).bounded (j + 1) stage
        have less := BatchWriter.close_step_work 5 close
        have both := work_setBoth s inside within { s.lane p j with writer := w, broker := b }
          { s.source p with current := none, scatter := if returned then .closing j else .closing (j + 1) }
        left
        cases returned <;>
          simp only [Lane.work,Lane.toEncode,Source.work,BatchReader.work,stage,current,ScatterStage.work,
            if_true,Bool.false_eq_true,if_false] at less both ⊢ <;>
          omega

private theorem step_work {s t : State} {a : Label} (nonempty : KeysNonempty job) (holds : Invariant job s)
    (stepped : job.step s a = some t) : job.work t < job.work s ∨
      job.work t = job.work s ∧ job.ready t = job.ready s ∧ (∀ b, b ≠ a → t.distance b = s.distance b) ∧
        (job.ready s a → t.distance a < s.distance a) := by
  cases a with
  | map p =>
    simp only [Job.step,Option.ite_none_right_eq_some,Option.map_eq_some_iff] at stepped
    obtain ⟨inside,src,moved,rfl⟩ := stepped
    have less := mapStep_work moved
    have source := work_setSource s inside src
    omega
  | scatter p =>
    simp only [Job.step,Option.ite_none_right_eq_some] at stepped
    obtain ⟨inside,moved⟩ := stepped
    obtain less | ⟨⟨idle,running⟩,src,rfl,looked⟩ := scatterStep_work holds inside moved
    · exact .inl less
    have kept : src.work job.outputs = (s.source p).work job.outputs := by rw [looked.1]; rfl
    have source := work_setSource s inside src
    refine .inr ⟨by omega,and_assoc.mp ⟨looked_source looked,fun ready => ?_⟩⟩
    have readable : (s.source p).reader.readable (s.source p).broker := by
      simpa [Job.ready,Job.scatterReady,inside,idle,running] using ready
    have nearer := looked.2 readable
    rw [State.distance,State.distance,setSource_source,if_pos rfl,congrArg Source.broker looked.1]
    exact nearer
  | encode p j =>
    simp only [Job.step,Option.ite_none_right_eq_some,Option.map_eq_some_iff] at stepped
    obtain ⟨⟨inside,within⟩,lane,moved,rfl⟩ := stepped
    have work := work_setLane s inside within lane
    have keyed : ∀ pair ∈ (s.lane p j).way, pair.1 ≠ [] := fun pair member =>
      nonempty p inside pair (holds.listed inside within (.inr member))
    obtain less | ⟨begun,looked⟩ := encodeStep_work (holds.lanes p inside j within) keyed moved
    · exact .inl (by omega)
    have kept : lane.work = (s.lane p j).work := by rw [looked.1]; rfl
    refine .inr ⟨by omega,and_assoc.mp ⟨looked_lane looked,fun ready => ?_⟩⟩
    have nearer := looked.2 (ready.2.2.resolve_left begun)
    rw [State.distance,State.distance,setLane_lane,if_pos ⟨rfl,rfl⟩,congrArg Lane.broker looked.1]
    exact nearer
  | serve p j =>
    simp only [Job.step,Option.ite_none_right_eq_some,Option.map_eq_some_iff,Prod.exists] at stepped
    obtain ⟨⟨inside,within⟩,lane,sink,moved,rfl⟩ := stepped
    have less := serveStep_work moved
    have lanes := work_setLane s inside within lane
    have sinks := work_setSink (s.setLane p j lane) within sink
    rw [setLane_sink] at sinks
    omega
  | store j =>
    simp only [Job.step,Option.ite_none_right_eq_some,Option.map_eq_some_iff] at stepped
    obtain ⟨within,sink,moved,rfl⟩ := stepped
    have work := work_setSink s within sink
    obtain less | ⟨⟨started,idle⟩,looked⟩ := storeStep_work (holds.sinks j within).whole moved
    · exact .inl (by omega)
    have kept : sink.work = (s.sink j).work := by rw [looked.1]; rfl
    refine .inr ⟨by omega,and_assoc.mp ⟨looked_sink looked,fun ready => ?_⟩⟩
    have readable : (s.sink j).broker.readable := by simpa [started,idle] using ready.2.2
    have nearer := looked.2 readable
    rw [State.distance,State.distance,setSink_sink,if_pos rfl,congrArg Sink.broker looked.1]
    exact nearer

def polling (deliverable : Deliverable job) : System.Polling job.system (Underway job) job.Finished where
  work := job.work
  ready := job.ready
  distance := State.distance
  limit := 6
  near := State.distance_lt
  preserved _ _ _ underway stepped := step_underway deliverable.nonempty underway stepped
  able _ underway going := by
    by_contra idle
    exact going (idle_finished (not_exists.mp idle) underway deliverable)
  enabled _ _ underway ready := ready_enabled deliverable underway ready
  moved _ _ _ underway stepped := step_work deliverable.nonempty underway.holds stepped

instance : Nonempty Label := ⟨.map 0⟩

instance : Countable Label := by
  let code : Label → Nat × Nat × Nat
    | .map p => (0,p,0)
    | .scatter p => (1,p,0)
    | .encode p j => (2,p,j)
    | .serve p j => (3,p,j)
    | .store j => (4,j,0)
  apply Function.Injective.countable (f := code)
  intro a b same
  cases a <;> cases b <;> simp_all [code]

/-- From whatever state a job has come to, every fair schedule brings it to its end. -/
theorem shuffle_ends (deliverable : Deliverable job) {s : State} (reached : job.system.Reachable s)
    {schedule : Nat → Label} (fair : System.Fair schedule) :
    ∃ n, job.Finished (job.system.trace s schedule n) := by
  have underway : Underway job s := by
    apply reached.invariant
    · rintro _ rfl
      exact initial_underway job
    · exact fun _ _ _ underway stepped => step_underway deliverable.nonempty underway stepped
  exact (polling deliverable).reaches underway fair

end

private theorem addition_deliverable : Deliverable addition :=
  ⟨by decide +kernel,by decide +kernel,fun _ _ _ _ => Nat.zero_lt_one,by decide⟩

theorem shuffle_ends_addition : ∃ schedule, System.Fair schedule ∧
    ∃ n, addition.Finished (addition.system.trace addition.initial schedule n) := by
  obtain ⟨schedule,fair⟩ := System.exists_fair Label
  exact ⟨schedule,fair,shuffle_ends addition_deliverable (.start rfl) fair⟩

end Eggroll.Shuffle
