import Mathlib.Data.UInt
import Eggroll.Shuffle

/-! No pair is lost or doubled between the map operator and the stores: for every input
and output partition the pairs on their way, from the newest in the map task to the ones
already stored, are in every state the pairs the input partition produces for the output. -/
namespace Eggroll.Shuffle
open Library Format Broker BinBatch Store

namespace Job
variable (job : Job)

def signals (src : Source) : Int :=
  match src.stage with
  | .mapping => job.writers
  | .leaving _ => 1
  | .done => 0

end Job

def Source.ahead (src : Source) : List Pair :=
  src.current.toList ++ (src.reader.got ++ (src.broker.queue.flatten ++ (src.writer.batch ++ src.todo)))

/-- Whether the scatter loop has closed target `j`. -/
def ScatterStage.closed (stage : ScatterStage) (j : Nat) : Bool :=
  match stage with
  | .running => false
  | .closing left => left ≤ j

structure SourceOk (job : Job) (src : Source) : Prop where
  active : src.broker.active_writers = job.signals src
  drained : src.stage ≠ .mapping → src.todo = [] ∧ src.writer.batch = []
  reader : src.reader.Sound src.broker
  finished : src.scatter ≠ .running → src.reader.pc = .stopped ∧ src.current = none
  bounded : ∀ left, src.scatter = .closing left → left ≤ job.outputs

section
variable {job : Job}

theorem mapStep_ok {src src' : Source} (ok : SourceOk job src) (stepped : job.mapStep src = some src') :
    SourceOk job src' ∧ src'.ahead = src.ahead ∧ src'.scatter = src.scatter := by
  obtain ⟨active,drained,reader,finished,bounded⟩ := ok
  have writing (mapping : src.stage = .mapping) : 0 < src.broker.active_writers := by
    rw [active,Job.signals,mapping]
    simp only [Job.writers]
    split <;> decide
  cases stage : src.stage with
  | mapping =>
    cases todo : src.todo with
    | cons pair rest =>
      simp only [Job.mapStep,stage,todo,Option.map_eq_some_iff,Prod.exists] at stepped
      obtain ⟨w,b,returned,put,rfl⟩ := stepped
      obtain ⟨same,content⟩ := BatchWriter.put_step_spec put
      refine ⟨⟨?_,fun other => absurd rfl other,reader.of_active (writing stage) b,finished,
        bounded⟩,?_,rfl⟩
      · simp only [same,active,Job.signals,stage]
      · simp only [Source.ahead,todo]
        rw [← List.append_assoc b.queue.flatten,content]
        cases returned <;> simp
    | nil =>
      simp only [Job.mapStep,stage,todo,Option.map_eq_some_iff,Prod.exists] at stepped
      obtain ⟨w,b,returned,closed,rfl⟩ := stepped
      obtain ⟨content,open_,shut⟩ := BatchWriter.close_step_spec closed
      refine ⟨⟨?_,?_,?_,finished,bounded⟩,?_,rfl⟩
      · cases returned with
        | false =>
          simp only [open_ rfl,active,Job.signals,stage,Bool.false_eq_true,if_false]
        | true =>
          simp only [(shut rfl).2,FifoBroker.decrement,active,Job.signals,stage,if_true,Job.writers]
          cases job.entered <;> simp
      · intro other
        cases returned with
        | false => simp at other
        | true => exact ⟨rfl,(shut rfl).1⟩
      · exact reader.of_active (writing stage) b
      · simp only [Source.ahead,todo,List.append_nil]
        rw [content]
  | leaving checked =>
    cases checked with
    | false =>
      simp only [Job.mapStep,stage,Option.ite_none_left_eq_some,Option.some.injEq] at stepped
      obtain ⟨_,rfl⟩ := stepped
      refine ⟨⟨?_,fun _ => drained (by simp [stage]),reader,finished,bounded⟩,rfl,rfl⟩
      simp only [active,Job.signals,stage]
    | true =>
      simp only [Job.mapStep,stage,Option.some.injEq] at stepped
      subst stepped
      refine ⟨⟨?_,fun _ => drained (by simp [stage]),reader.decrement,finished,bounded⟩,rfl,rfl⟩
      simp only [FifoBroker.decrement,active,Job.signals,stage]
      rfl
  | done => simp [Job.mapStep,stage] at stepped

theorem scatterRead_ok {src src' : Source} (ok : SourceOk job src) (running : src.scatter = .running)
    (idle : src.current = none) (stepped : job.scatterRead src = some src') :
    SourceOk job src' ∧ src'.ahead = src.ahead ∧
      ∀ j < job.outputs, src'.scatter.closed j = src.scatter.closed j := by
  obtain ⟨active,drained,reader,finished,bounded⟩ := ok
  unfold Job.scatterRead at stepped
  split at stepped
  · rename_i stop
    simp only [Option.some.injEq] at stepped
    subst stepped
    refine ⟨⟨active,drained,reader,fun _ => ⟨stop,idle⟩,fun left same => ?_⟩,rfl,fun j inside => ?_⟩
    · cases same
      exact Nat.le_refl _
    simp only [running,ScatterStage.closed,decide_eq_false_iff_not]
    omega
  · simp only [Option.map_eq_some_iff,Prod.exists] at stepped
    obtain ⟨r,b,item,next,rfl⟩ := stepped
    obtain ⟨sound,same,content⟩ := BatchReader.next_step_spec reader next
    refine ⟨⟨same.trans active,drained,sound,fun other => absurd running other,bounded⟩,?_,
      fun _ _ => rfl⟩
    simp only [Source.ahead,idle,Option.toList_none,List.nil_append]
    rw [← List.append_assoc r.got,← List.append_assoc item.toList,content,List.append_assoc]

end

def Lane.way (lane : Lane) : List Pair :=
  (match lane.servicer with
    | .putting data => inflight data
    | _ => []) ++
  (lane.stream.flatMap inflight ++ (lane.encoder.elim [] held ++
    (lane.reader.got ++ (lane.broker.queue.flatten ++ lane.writer.batch))))

structure LaneOk (closed : Bool) (lane : Lane) : Prop where
  active : lane.broker.active_writers = if closed then 0 else 1
  drained : closed = true → lane.writer.batch = []
  reader : lane.reader.Sound lane.broker
  encoder : ∀ e, lane.encoder = some e → BinBatch.Sound e
  ended : lane.ended = true → lane.reader.pc = .stopped ∧ lane.encoder = none
  whole : ∀ data ∈ lane.stream, Whole data
  putting : ∀ data, lane.servicer = .putting data → Whole data
  served : lane.servicer = .signalling ∨ lane.servicer = .done → lane.ended = true ∧ lane.stream = []

section
variable {job : Job}

private theorem put_ok {lane : Lane} (ok : LaneOk false lane) {w : BatchWriter Pair}
    {b : FifoBroker (List Pair)} {pair : Pair} {returned : Bool}
    (put : lane.writer.put_step job.batch_size lane.broker pair = some (w,b,returned)) :
    LaneOk false { lane with writer := w, broker := b } ∧
      Lane.way { lane with writer := w, broker := b } =
        lane.way ++ (if returned then [pair] else []) := by
  obtain ⟨active,drained,reader,encoder,ended,whole,putting,served⟩ := ok
  obtain ⟨same,content⟩ := BatchWriter.put_step_spec put
  have writing : 0 < lane.broker.active_writers := by rw [active]; decide
  refine ⟨⟨same.trans active,fun no => by simp at no,reader.of_active writing b,encoder,ended,whole,
    putting,served⟩,?_⟩
  simp only [Lane.way,content,List.append_assoc]

private theorem close_ok {lane : Lane} (ok : LaneOk false lane) {w : BatchWriter Pair}
    {b : FifoBroker (List Pair)} {returned : Bool}
    (close : lane.writer.close_step lane.broker = some (w,b,returned)) :
    LaneOk returned { lane with writer := w, broker := b } ∧
      Lane.way { lane with writer := w, broker := b } = lane.way := by
  obtain ⟨active,drained,reader,encoder,ended,whole,putting,served⟩ := ok
  obtain ⟨content,open_,shut⟩ := BatchWriter.close_step_spec close
  have writing : 0 < lane.broker.active_writers := by rw [active]; decide
  refine ⟨⟨?_,fun done => (shut done).1,reader.of_active writing b,encoder,ended,whole,putting,
    served⟩,by simp only [Lane.way,content]⟩
  cases returned with
  | false => exact (open_ rfl).trans active
  | true => simp [(shut rfl).2,FifoBroker.decrement,active]

private theorem encodeStep_ok {closed : Bool} {lane lane' : Lane} (ok : LaneOk closed lane)
    (nonempty : ∀ pair ∈ lane.way, pair.1 ≠ []) (stepped : job.encodeStep lane = some lane') :
    LaneOk closed lane' ∧ lane'.way = lane.way ∧ lane'.servicer = lane.servicer := by
  obtain ⟨active,drained,reader,encoder,ended,whole,putting,served⟩ := ok
  cases complete : lane.ended with
  | true => simp [Job.encodeStep,complete] at stepped
  | false =>
    have unserved : ¬ (lane.servicer = .signalling ∨ lane.servicer = .done) := fun late => by
      simpa [complete] using (served late).1
    unfold Job.encodeStep at stepped
    simp only [complete,Bool.false_eq_true,if_false] at stepped
    cases inside : lane.encoder with
    | none =>
      simp only [inside] at stepped
      split at stepped
      · contradiction
      · rename_i w committed
        simp only [Option.some.injEq] at stepped
        subst stepped
        have fresh : Holds (⟨w,0⟩ : Encoder).writer [] := (commit_holds committed).2
        have begun := fresh.sound (e := ⟨w,0⟩) (fun _ member => by simp at member)
        refine ⟨⟨active,drained,reader,fun e same => ?_,fun stop => absurd stop Bool.false_ne_true,
          whole,putting,fun late => absurd late unserved⟩,?_,rfl⟩
        · cases same
          exact begun.1
        · simp only [Lane.way,inside,Option.elim_some,Option.elim_none,begun.2]
    | some e =>
      have sound := encoder e inside
      simp only [inside] at stepped
      split at stepped
      · rename_i stop
        split at stepped
        · rename_i batches finished
          simp only [Option.some.injEq] at stepped
          subst stepped
          obtain ⟨good,content⟩ := finish_done sound finished
          refine ⟨⟨active,drained,reader,fun e same => by simp at same,fun _ => ⟨stop,rfl⟩,?_,putting,
            fun late => absurd late unserved⟩,?_,rfl⟩
          · intro data member
            rcases List.mem_append.mp member with old | new
            · exact whole data old
            · exact good data new
          · simp [Lane.way,inside,content]
        · contradiction
      · split at stepped
        · contradiction
        · rename_i r b next
          obtain ⟨sound',same,content⟩ := BatchReader.next_step_spec reader next
          simp only [Option.some.injEq] at stepped
          subst stepped
          refine ⟨⟨same.trans active,drained,sound',fun d got => by cases got; exact sound,
            fun stop => absurd stop Bool.false_ne_true,whole,putting,fun late => absurd late unserved⟩,
            ?_,rfl⟩
          simp only [Option.toList_none,List.nil_append] at content
          simp only [Lane.way,inside]
          rw [← List.append_assoc r.got,content,List.append_assoc]
        · rename_i r b pair next
          obtain ⟨sound',same,content⟩ := BatchReader.next_step_spec reader next
          split at stepped
          · rename_i batches e' turned
            simp only [Option.some.injEq] at stepped
            subst stepped
            have listed : pair ∈ lane.way := by
              have read : pair ∈ lane.reader.got ++ lane.broker.queue.flatten := by
                rw [← content]
                simp
              rcases List.mem_append.mp read with now | later
              · simp [Lane.way,now]
              · simp only [Lane.way,List.mem_append,later,true_or,or_true]
            obtain ⟨next_sound,good,moved⟩ := turn_next sound (nonempty pair listed) turned
            refine ⟨⟨same.trans active,drained,sound',fun d got => ?_,
              fun stop => absurd stop Bool.false_ne_true,?_,putting,fun late => absurd late unserved⟩,?_,rfl⟩
            · cases got
              exact next_sound
            · intro data member
              rcases List.mem_append.mp member with old | new
              · exact whole data old
              · exact good data new
            · simp only [Lane.way,inside,Option.elim_some,List.flatMap_append,List.append_assoc]
              rw [← List.append_assoc (batches.flatMap inflight),moved,← List.append_assoc lane.reader.got,
                ← content]
              simp
          · contradiction

end

/-- The pairs of input partition `p` that have reached the store task's broker. -/
def Sink.share (sink : Sink) (p : Nat) : List Pair :=
  valuesOf p sink.log ++ (valuesOf p sink.pairs ++ (valuesOf p sink.broker.queue).flatMap inflight)

structure SinkOk (job : Job) (j unserved : Nat) (sink : Sink) : Prop where
  active : sink.broker.active_writers = unserved
  watched : Watched sink.broker sink.reader
  whole : ∀ item ∈ sink.broker.queue, Whole item.2
  sent : ∀ item ∈ sink.broker.queue, item.1 < job.inputs
  known : ∀ item ∈ sink.log ++ sink.pairs, item.1 < job.inputs
  committed : sink.committed = true → sink.reader = .stopped ∧ sink.pairs = []
  db : (∀ item ∈ sink.log, job.accepts item.2.1 = true) → ∀ k, sink.db[k]? =
    reduction job.reduce_op ((job.stored j)[k]?.toList ++ valuesOf k (sink.log.map Prod.snd))
  keys : ∀ k, k ∈ sink.db → k ∈ job.stored j ∨ ∃ item ∈ sink.log, item.2.1 = k

section
variable {job : Job}

private theorem serveStep_ok {p j unserved : Nat} {closed : Bool} {lane lane' : Lane} {sink sink' : Sink}
    (laneOk : LaneOk closed lane) (sinkOk : SinkOk job j unserved sink) (inside : p < job.inputs)
    (counted : lane.servicer ≠ .done → 0 < unserved)
    (stepped : Job.serveStep p lane sink = some (lane',sink')) :
    lane.servicer ≠ .done ∧ LaneOk closed lane' ∧
      SinkOk job j (if lane'.servicer = .done then unserved - 1 else unserved) sink' ∧
      sink'.share p ++ lane'.way = sink.share p ++ lane.way ∧
      ∀ q, q ≠ p → sink'.share q = sink.share q := by
  obtain ⟨active,drained,reader,encoder,ended,whole,putting,served⟩ := laneOk
  cases stage : lane.servicer with
  | receiving =>
    cases stream : lane.stream with
    | cons data rest =>
      simp only [Job.serveStep,stage,stream,Option.ite_none_right_eq_some,Option.some.injEq,
        Prod.mk.injEq] at stepped
      obtain ⟨_,rfl,rfl⟩ := stepped
      rw [stream] at whole
      refine ⟨by simp,⟨active,drained,reader,encoder,ended,fun d member => whole d (List.mem_cons_of_mem _ member),
        fun d same => ?_,fun late => by simp at late⟩,by simpa using sinkOk,?_,fun _ _ => rfl⟩
      · cases same
        exact whole data List.mem_cons_self
      · simp [Lane.way,stage,stream]
    | nil =>
      simp only [Job.serveStep,stage,stream,Option.ite_none_right_eq_some,Option.some.injEq,
        Prod.mk.injEq,Bool.and_eq_true] at stepped
      obtain ⟨⟨⟨complete,_⟩,_⟩,rfl,rfl⟩ := stepped
      refine ⟨by simp,⟨active,drained,reader,encoder,ended,fun d member => by simp at member,
        fun d same => by simp at same,fun _ => ⟨complete,rfl⟩⟩,by simpa using sinkOk,?_,fun _ _ => rfl⟩
      simp [Lane.way,stage,stream]
  | putting data =>
    simp only [Job.serveStep,stage,FifoBroker.queue_put,Option.map_eq_some_iff,
      Option.ite_none_left_eq_some,Option.some.injEq,Prod.mk.injEq] at stepped
    obtain ⟨b,⟨_,rfl⟩,rfl,rfl⟩ := stepped
    have writing : 0 < sink.broker.active_writers := by
      have := counted (by simp [stage])
      rw [sinkOk.active]
      omega
    refine ⟨by simp,⟨active,drained,reader,encoder,ended,whole,fun d same => by simp at same,
      fun late => by simp at late⟩,?_,?_,fun q other => ?_⟩
    · simp only [reduceCtorEq,if_false]
      refine ⟨sinkOk.active,sinkOk.watched.of_active writing _,?_,?_,sinkOk.known,sinkOk.committed,
        sinkOk.db,sinkOk.keys⟩
      · intro item member
        rcases List.mem_append.mp member with old | new
        · exact sinkOk.whole item old
        · rw [List.mem_singleton.mp new]
          exact putting data stage
      · intro item member
        rcases List.mem_append.mp member with old | new
        · exact sinkOk.sent item old
        · rw [List.mem_singleton.mp new]
          exact inside
    · simp [Lane.way,stage,Sink.share,valuesOf_singleton]
    · simp [Sink.share,valuesOf_singleton,Ne.symm other]
  | signalling =>
    simp only [Job.serveStep,stage,Option.some.injEq,Prod.mk.injEq] at stepped
    obtain ⟨rfl,rfl⟩ := stepped
    obtain ⟨complete,empty⟩ := served (.inl stage)
    have some_left := counted (by simp [stage])
    refine ⟨by simp,⟨active,drained,reader,encoder,ended,whole,fun d same => by simp at same,
      fun _ => ⟨complete,empty⟩⟩,?_,by simp [Lane.way,stage,Sink.share,FifoBroker.decrement],fun _ _ => rfl⟩
    simp only [if_true]
    refine ⟨?_,sinkOk.watched.decrement,sinkOk.whole,sinkOk.sent,sinkOk.known,sinkOk.committed,sinkOk.db,
      sinkOk.keys⟩
    simp only [FifoBroker.decrement,sinkOk.active]
    omega
  | done => simp [Job.serveStep,stage] at stepped

private theorem valuesOf_tagged (p q : Nat) (pairs : List Pair) :
    valuesOf q (pairs.map fun pair => (p,pair)) = if p = q then pairs else [] := by
  by_cases same : p = q <;> simp [valuesOf,same,List.filter_map,Function.comp_def]

private theorem storeStep_ok {j unserved : Nat} {sink sink' : Sink} (ok : SinkOk job j unserved sink)
    (stepped : job.storeStep sink = some sink') :
    SinkOk job j unserved sink' ∧ ∀ p, sink'.share p = sink.share p := by
  obtain ⟨active,watched,whole,sent,known,committed,db,keys⟩ := ok
  unfold Job.storeStep at stepped
  split at stepped
  · simp only [Option.some.injEq] at stepped
    subst stepped
    exact ⟨⟨active,watched,whole,sent,known,committed,db,keys⟩,fun _ => rfl⟩
  · split at stepped
    · rename_i item rest todo
      cases done : store job.accepts job.reduce_op sink.db item.2 with
      | error e => simp [done] at stepped
      | ok db' =>
        simp only [done,Option.some.injEq] at stepped
        subst stepped
        rw [todo] at known
        refine ⟨⟨active,watched,whole,sent,fun i member => known i ?_,fun complete => ?_,fun accepted k => ?_,
          fun k member => ?_⟩,fun p => ?_⟩
        · rwa [List.append_assoc,List.singleton_append] at member
        · have none_left := (committed complete).2
          simp [todo] at none_left
        · have before := db fun i member => accepted i (List.mem_append_left _ member)
          rw [store_get (accepted item (by simp)) done before]
          simp
        · obtain rfl | old := store_mem done member
          · exact .inr ⟨item,by simp,rfl⟩
          · refine (keys k old).imp_right ?_
            rintro ⟨i,inside,same⟩
            exact ⟨i,List.mem_append_left _ inside,same⟩
        · simp only [Sink.share,todo]
          rw [← List.singleton_append (l := rest),valuesOf_append,valuesOf_append]
          simp only [List.append_assoc]
    · rename_i todo
      split at stepped
      · rename_i stop
        split at stepped
        · contradiction
        · simp only [Option.some.injEq] at stepped
          subst stepped
          exact ⟨⟨active,watched,whole,sent,known,fun _ => ⟨stop,todo⟩,db,keys⟩,fun _ => rfl⟩
      · rename_i going
        have open_ (complete : sink.committed = true) : False := going (committed complete).1
        split at stepped
        · contradiction
        · rename_i b pc pulled
          simp only [Option.some.injEq] at stepped
          subst stepped
          obtain ⟨rfl,_⟩ | ⟨x,impossible,_⟩ := pull_cases pulled
          · exact ⟨⟨active,watched.pull pulled,whole,sent,known,fun complete => (open_ complete).elim,db,
              keys⟩,
              fun _ => rfl⟩
          · contradiction
        · rename_i b pc p data pulled
          simp only [Option.map_eq_some_iff] at stepped
          obtain ⟨pairs,taken,rfl⟩ := stepped
          obtain ⟨_,impossible⟩ | ⟨x,found,queue,same,rfl⟩ := pull_cases pulled
          · contradiction
          · cases found
            have good := whole (p,data) (by simp [queue])
            have content : pairs = inflight data := Option.some.inj (taken.symm.trans good.decoded)
            have member (item : Nat × Option Bytes) (inside : item ∈ b.queue) : item ∈ sink.broker.queue := by
              rw [queue]
              exact List.mem_cons_of_mem _ inside
            refine ⟨⟨same.trans active,watched.pull pulled,fun i inside => whole i (member i inside),
              fun i inside => sent i (member i inside),?_,fun complete => (open_ complete).elim,db,keys⟩,fun q => ?_⟩
            · intro item inside
              rcases List.mem_append.mp inside with old | new
              · exact known item (List.mem_append_left _ old)
              · obtain ⟨pair,_,rfl⟩ := List.mem_map.mp new
                exact sent (p,data) (by simp [queue])
            · simp only [Sink.share,todo,queue,content,valuesOf_tagged,valuesOf_cons,valuesOf_nil]
              by_cases mine : p = q <;> simp [mine]

end

/-- The servicers that still count as writers of output `j`. -/
def unserved (job : Job) (s : State) (j : Nat) : Nat :=
  ((Finset.range job.inputs).filter fun p => (s.lane p j).servicer ≠ .done).card

structure Invariant (job : Job) (s : State) : Prop where
  sources : ∀ p < job.inputs, SourceOk job (s.source p)
  lanes : ∀ p < job.inputs, ∀ j < job.outputs, LaneOk ((s.source p).scatter.closed j) (s.lane p j)
  sinks : ∀ j < job.outputs, SinkOk job j (unserved job s j) (s.sink j)
  conserved : ∀ p < job.inputs, ∀ j < job.outputs,
    (s.sink j).share p ++ ((s.lane p j).way ++ (s.source p).ahead.filter fun pair => job.target pair = j) =
      (job.pairs p).filter fun pair => job.target pair = j

def KeysNonempty (job : Job) : Prop := ∀ p < job.inputs, ∀ pair ∈ job.pairs p, pair.1 ≠ []

/-- The keys a job produces are not empty, and the store takes them. -/
structure Storable (job : Job) : Prop where
  nonempty : KeysNonempty job
  accepted : ∀ p < job.inputs, ∀ pair ∈ job.pairs p, job.accepts pair.1 = true

section
variable {job : Job}

@[simp] theorem setSource_source (s : State) (p q : Nat) (src : Source) :
    (s.setSource p src).source q = if q = p then src else s.source q :=
  Function.update_apply s.source p src q

@[simp] theorem setSource_lane (s : State) (p : Nat) (src : Source) :
    (s.setSource p src).lane = s.lane := rfl

@[simp] theorem setSource_sink (s : State) (p : Nat) (src : Source) :
    (s.setSource p src).sink = s.sink := rfl

@[simp] theorem setLane_lane (s : State) (p q j i : Nat) (lane : Lane) :
    (s.setLane p j lane).lane q i = if q = p ∧ i = j then lane else s.lane q i := by
  simp only [State.setLane,Function.update_apply]
  by_cases first : q = p
  · subst first
    simp [Function.update_apply]
  · simp [first]

@[simp] theorem setLane_source (s : State) (p j : Nat) (lane : Lane) :
    (s.setLane p j lane).source = s.source := rfl

@[simp] theorem setLane_sink (s : State) (p j : Nat) (lane : Lane) :
    (s.setLane p j lane).sink = s.sink := rfl

@[simp] theorem setSink_sink (s : State) (j i : Nat) (sink : Sink) :
    (s.setSink j sink).sink i = if i = j then sink else s.sink i :=
  Function.update_apply s.sink j sink i

@[simp] theorem setSink_source (s : State) (j : Nat) (sink : Sink) :
    (s.setSink j sink).source = s.source := rfl

@[simp] theorem setSink_lane (s : State) (j : Nat) (sink : Sink) :
    (s.setSink j sink).lane = s.lane := rfl

private theorem unserved_congr {s t : State} {j : Nat}
    (same : ∀ p < job.inputs, (t.lane p j).servicer = (s.lane p j).servicer) :
    unserved job t j = unserved job s j := by
  unfold unserved
  congr 1
  apply Finset.filter_congr
  intro p inside
  rw [same p (Finset.mem_range.mp inside)]

private theorem unserved_done {s t : State} {p j : Nat} (inside : p < job.inputs)
    (before : (s.lane p j).servicer ≠ .done) (after : (t.lane p j).servicer = .done)
    (others : ∀ q, q ≠ p → (t.lane q j).servicer = (s.lane q j).servicer) :
    unserved job t j = unserved job s j - 1 := by
  have member : p ∈ (Finset.range job.inputs).filter fun q => (s.lane q j).servicer ≠ .done := by
    simp [inside,before]
  unfold unserved
  rw [← Finset.card_erase_of_mem member]
  congr 1
  ext q
  by_cases same : q = p
  · simp [same,after]
  · simp [same,others q same]

theorem Invariant.setSource {s : State} (holds : Invariant job s) {p : Nat} {src : Source}
    (ok : SourceOk job src) (ahead : src.ahead = (s.source p).ahead)
    (closed : ∀ j < job.outputs, src.scatter.closed j = (s.source p).scatter.closed j) :
    Invariant job (s.setSource p src) := by
  refine ⟨fun q inside => ?_,fun q inside j within => ?_,holds.sinks,fun q inside j within => ?_⟩
  · rw [setSource_source]
    split
    · exact ok
    · exact holds.sources q inside
  · have old := holds.lanes q inside j within
    rw [setSource_source,setSource_lane]
    split
    · rename_i same
      rw [closed j within,← same]
      exact old
    · exact old
  · have old := holds.conserved q inside j within
    rw [setSource_source,setSource_lane,setSource_sink]
    split
    · rename_i same
      rw [ahead,← same]
      exact old
    · exact old

theorem Invariant.listed {s : State} (holds : Invariant job s) {p j : Nat} (inside : p < job.inputs)
    (within : j < job.outputs) {pair : Pair}
    (member : pair ∈ (s.sink j).share p ∨ pair ∈ (s.lane p j).way) : pair ∈ job.pairs p := by
  have whole := holds.conserved p inside j within
  have found : pair ∈ (job.pairs p).filter fun pair => job.target pair = j := by
    rw [← whole]
    rcases member with stored | moving
    · exact List.mem_append_left _ stored
    · exact List.mem_append_right _ (List.mem_append_left _ moving)
  exact (List.mem_filter.mp found).1

private theorem mapStep_invariant {s : State} (holds : Invariant job s) {p : Nat} {src : Source}
    (inside : p < job.inputs) (stepped : job.mapStep (s.source p) = some src) :
    Invariant job (s.setSource p src) := by
  obtain ⟨ok,ahead,scatter⟩ := mapStep_ok (holds.sources p inside) stepped
  exact holds.setSource ok ahead fun _ _ => by rw [scatter]

private theorem encodeStep_invariant {s : State} (nonempty : KeysNonempty job) (holds : Invariant job s)
    {p j : Nat} {lane : Lane} (inside : p < job.inputs) (within : j < job.outputs)
    (stepped : job.encodeStep (s.lane p j) = some lane) : Invariant job (s.setLane p j lane) := by
  have keyed : ∀ pair ∈ (s.lane p j).way, pair.1 ≠ [] := fun pair member =>
    nonempty p inside pair (holds.listed inside within (.inr member))
  obtain ⟨ok,way,servicer⟩ := encodeStep_ok (holds.lanes p inside j within) keyed stepped
  refine ⟨holds.sources,fun q insideQ i withinI => ?_,fun i withinI => ?_,fun q insideQ i withinI => ?_⟩
  · rw [setLane_lane,setLane_source]
    split
    · rename_i same
      rw [same.1,same.2]
      exact ok
    · exact holds.lanes q insideQ i withinI
  · rw [unserved_congr (s := s)]
    · exact holds.sinks i withinI
    · intro q _
      rw [setLane_lane]
      split
      · rename_i same
        rw [servicer,same.1,same.2]
      · rfl
  · have old := holds.conserved q insideQ i withinI
    rw [setLane_lane,setLane_source,setLane_sink]
    split
    · rename_i same
      rw [way,← same.1,← same.2]
      exact old
    · exact old

private theorem serveStep_invariant {s : State} (holds : Invariant job s) {p j : Nat} {lane : Lane}
    {sink : Sink} (inside : p < job.inputs) (within : j < job.outputs)
    (stepped : Job.serveStep p (s.lane p j) (s.sink j) = some (lane,sink)) :
    Invariant job ((s.setLane p j lane).setSink j sink) := by
  have counted (going : (s.lane p j).servicer ≠ .done) : 0 < unserved job s j :=
    Finset.card_pos.mpr ⟨p,by simp [inside,going]⟩
  obtain ⟨before,laneOk,sinkOk,mine,others⟩ :=
    serveStep_ok (holds.lanes p inside j within) (holds.sinks j within) inside counted stepped
  refine ⟨holds.sources,fun q insideQ i withinI => ?_,fun i withinI => ?_,fun q insideQ i withinI => ?_⟩
  · rw [setSink_lane,setLane_lane,setSink_source,setLane_source]
    split
    · rename_i same
      rw [same.1,same.2]
      exact laneOk
    · exact holds.lanes q insideQ i withinI
  · rw [setSink_sink]
    split
    · rename_i same
      subst same
      suffices count : unserved job ((s.setLane p i lane).setSink i sink) i =
          if lane.servicer = .done then unserved job s i - 1 else unserved job s i by
        rw [count]
        exact sinkOk
      split
      · rename_i done
        apply unserved_done inside before
        · simp [done]
        · intro q other
          simp [other]
      · rename_i going
        unfold unserved
        congr 1
        apply Finset.filter_congr
        intro q _
        by_cases same : q = p
        · simp [same,going,before]
        · simp [same]
    · rename_i other
      rw [unserved_congr (s := s)]
      · exact holds.sinks i withinI
      · intro q _
        simp [other]
  · have old := holds.conserved q insideQ i withinI
    rw [setSink_sink,setSink_lane,setLane_lane,setSink_source,setLane_source]
    by_cases sameJ : i = j
    · subst sameJ
      by_cases sameP : q = p
      · subst sameP
        simp only [and_self,if_true]
        rw [← List.append_assoc,mine,List.append_assoc]
        exact old
      · simp only [sameP,false_and,if_false,if_true]
        rw [others q sameP]
        exact old
    · simp only [sameJ,and_false,if_false]
      exact old

private theorem storeStep_invariant {s : State} (holds : Invariant job s) {j : Nat} {sink : Sink}
    (within : j < job.outputs) (stepped : job.storeStep (s.sink j) = some sink) :
    Invariant job (s.setSink j sink) := by
  obtain ⟨ok,share⟩ := storeStep_ok (holds.sinks j within) stepped
  refine ⟨holds.sources,holds.lanes,fun i withinI => ?_,fun q insideQ i withinI => ?_⟩
  · rw [setSink_sink]
    split
    · rename_i same
      rw [same]
      exact ok
    · exact holds.sinks i withinI
  · have old := holds.conserved q insideQ i withinI
    rw [setSink_sink,setSink_lane,setSink_source]
    split
    · rename_i same
      rw [share,← same]
      exact old
    · exact old

private theorem Invariant.setBoth {s : State} (holds : Invariant job s) {p j : Nat} {src : Source} {lane : Lane}
    (sourceOk : SourceOk job src) (laneOk : LaneOk (src.scatter.closed j) lane)
    (servicer : lane.servicer = (s.lane p j).servicer)
    (closed : ∀ i, i ≠ j → src.scatter.closed i = (s.source p).scatter.closed i)
    (moved : lane.way ++ src.ahead.filter (fun pair => job.target pair = j) =
      (s.lane p j).way ++ (s.source p).ahead.filter fun pair => job.target pair = j)
    (kept : ∀ i, i ≠ j → src.ahead.filter (fun pair => job.target pair = i) =
      (s.source p).ahead.filter fun pair => job.target pair = i) :
    Invariant job ((s.setLane p j lane).setSource p src) := by
  refine ⟨fun q inside => ?_,fun q inside i within => ?_,fun i within => ?_,fun q inside i within => ?_⟩
  · rw [setSource_source]
    split
    · exact sourceOk
    · exact holds.sources q inside
  · have old := holds.lanes q inside i within
    rw [setSource_source,setSource_lane,setLane_lane]
    by_cases sameP : q = p
    · subst sameP
      by_cases sameJ : i = j
      · subst sameJ
        simpa using laneOk
      · simp only [sameJ,and_false,if_false,if_true]
        rw [closed i sameJ]
        exact old
    · simpa [sameP] using old
  · rw [unserved_congr (s := s)]
    · exact holds.sinks i within
    · intro q _
      rw [setSource_lane,setLane_lane]
      split
      · rename_i same
        rw [servicer,same.1,same.2]
      · rfl
  · have old := holds.conserved q inside i within
    rw [setSource_source,setSource_lane,setLane_lane,setSource_sink,setLane_sink]
    by_cases sameP : q = p
    · subst sameP
      by_cases sameJ : i = j
      · subst sameJ
        simp only [and_self,if_true]
        rw [moved]
        exact old
      · simp only [sameJ,and_false,if_false,if_true]
        rw [kept i sameJ]
        exact old
    · simpa [sameP] using old

private theorem scatterStep_invariant {s t : State} (holds : Invariant job s) {p : Nat}
    (inside : p < job.inputs) (stepped : job.scatterStep s p = some t) : Invariant job t := by
  have ok := holds.sources p inside
  unfold Job.scatterStep at stepped
  cases current : (s.source p).current with
  | some pair =>
    have running : (s.source p).scatter = .running := by
      by_contra complete
      have idle := (ok.finished complete).2
      simp [current] at idle
    have unclosed (j : Nat) : (s.source p).scatter.closed j = false := by rw [running]; rfl
    simp only [current,Option.ite_none_right_eq_some,Option.map_eq_some_iff,Prod.exists] at stepped
    obtain ⟨within,w,b,returned,put,rfl⟩ := stepped
    have laneOk := holds.lanes p inside _ within
    rw [unclosed] at laneOk
    obtain ⟨laneOk',way⟩ := put_ok laneOk put
    apply holds.setBoth
    · exact ⟨ok.active,ok.drained,ok.reader,fun complete => absurd running complete,ok.bounded⟩
    · rw [unclosed]
      exact laneOk'
    · rfl
    · exact fun _ _ => rfl
    · rw [way]
      cases returned <;> simp [Source.ahead,current]
    · intro i other
      cases returned <;> simp [Source.ahead,current,Ne.symm other]
  | none =>
    simp only [current] at stepped
    cases stage : (s.source p).scatter with
    | running =>
      simp only [stage,Option.map_eq_some_iff] at stepped
      obtain ⟨src,read,rfl⟩ := stepped
      obtain ⟨ok',ahead,closed⟩ := scatterRead_ok ok stage current read
      exact holds.setSource ok' ahead closed
    | closing left =>
      cases left with
      | zero => simp [stage] at stepped
      | succ j =>
        simp only [stage,Option.map_eq_some_iff,Prod.exists] at stepped
        obtain ⟨w,b,returned,close,rfl⟩ := stepped
        have complete := ok.finished (by simp [stage])
        have within : j < job.outputs := ok.bounded (j + 1) stage
        have laneOk := holds.lanes p inside j within
        have unclosed : (s.source p).scatter.closed j = false := by
          simp [stage,ScatterStage.closed]
        rw [unclosed] at laneOk
        obtain ⟨laneOk',way⟩ := close_ok laneOk close
        apply holds.setBoth
        · refine ⟨ok.active,ok.drained,ok.reader,fun _ => ⟨complete.1,rfl⟩,fun left same => ?_⟩
          have before := ok.bounded (j + 1) stage
          cases returned <;> simp at same <;> omega
        · cases returned <;> simpa [ScatterStage.closed] using laneOk'
        · rfl
        · intro i other
          cases returned with
          | false => simp [stage]
          | true =>
            simp only [stage,ScatterStage.closed,if_true,decide_eq_decide]
            omega
        · rw [way]
          simp [Source.ahead,current]
        · intro i other
          simp [Source.ahead,current]

theorem initial_invariant (job : Job) : Invariant job job.initial where
  sources p _ := ⟨rfl,fun other => absurd rfl other,⟨⟨fun later => by simp [Job.initial] at later,
    fun stop => by simp [Job.initial] at stop⟩,fun left => by simp [Job.initial] at left⟩,
    fun complete => absurd rfl complete,fun left same => by simp [Job.initial] at same⟩
  lanes p _ j _ := ⟨rfl,fun shut => by simp [Job.initial,ScatterStage.closed] at shut,
    ⟨⟨fun later => by simp [Job.initial] at later,fun stop => by simp [Job.initial] at stop⟩,
      fun left => by simp [Job.initial] at left⟩,fun e got => by simp [Job.initial] at got,
    fun complete => by simp [Job.initial] at complete,fun data member => by simp [Job.initial] at member,
    fun data got => by simp [Job.initial] at got,fun late => by simp [Job.initial] at late⟩
  sinks j _ := ⟨by simp [Job.initial,unserved],⟨fun later => by simp [Job.initial] at later,
    fun stop => by simp [Job.initial] at stop⟩,fun item member => by simp [Job.initial] at member,
    fun item member => by simp [Job.initial] at member,fun item member => by simp [Job.initial] at member,
    fun complete => by simp [Job.initial] at complete,fun _ k => by
      cases found : (job.stored j)[k]? <;> cases op : job.reduce_op <;>
        simp [Job.initial,found,reduction,reduceAll],fun k member => .inl member⟩
  conserved p _ j _ := by simp [Job.initial,Sink.share,Lane.way,Source.ahead]

theorem step_invariant {s t : State} {a : Label} (nonempty : KeysNonempty job) (holds : Invariant job s)
    (stepped : job.step s a = some t) : Invariant job t := by
  cases a with
  | map p =>
    simp only [Job.step,Option.ite_none_right_eq_some,Option.map_eq_some_iff] at stepped
    obtain ⟨inside,src,moved,rfl⟩ := stepped
    exact mapStep_invariant holds inside moved
  | scatter p =>
    simp only [Job.step,Option.ite_none_right_eq_some] at stepped
    exact scatterStep_invariant holds stepped.1 stepped.2
  | encode p j =>
    simp only [Job.step,Option.ite_none_right_eq_some,Option.map_eq_some_iff] at stepped
    obtain ⟨⟨inside,within⟩,lane,moved,rfl⟩ := stepped
    exact encodeStep_invariant nonempty holds inside within moved
  | serve p j =>
    simp only [Job.step,Option.ite_none_right_eq_some,Option.map_eq_some_iff,Prod.exists] at stepped
    obtain ⟨⟨inside,within⟩,lane,sink,moved,rfl⟩ := stepped
    exact serveStep_invariant holds inside within moved
  | store j =>
    simp only [Job.step,Option.ite_none_right_eq_some,Option.map_eq_some_iff] at stepped
    obtain ⟨within,sink,moved,rfl⟩ := stepped
    exact storeStep_invariant holds within moved

theorem reachable_invariant (nonempty : KeysNonempty job) {s : State} (reached : job.system.Reachable s) :
    Invariant job s := by
  apply reached.invariant
  · rintro _ rfl
    exact initial_invariant job
  · intro _ _ _ holds stepped
    exact step_invariant nonempty holds stepped

theorem Invariant.logged {s : State} (holds : Invariant job s) {j : Nat} (within : j < job.outputs)
    {item : Nat × Pair} (member : item ∈ (s.sink j).log) :
    item.1 < job.inputs ∧ item.2 ∈ job.pairs item.1 ∧ job.target item.2 = j := by
  have inside := (holds.sinks j within).known item (List.mem_append_left _ member)
  have found : item.2 ∈ valuesOf item.1 (s.sink j).log :=
    List.mem_map.mpr ⟨item,List.mem_filter.mpr ⟨member,by simp⟩,rfl⟩
  have listed : item.2 ∈ (job.pairs item.1).filter fun pair => job.target pair = j := by
    rw [← holds.conserved item.1 inside j within,Sink.share]
    simp [found]
  rw [List.mem_filter,decide_eq_true_iff] at listed
  exact ⟨inside,listed⟩

theorem Invariant.placed {s : State} (holds : Invariant job s) {j : Nat} (within : j < job.outputs)
    {k : Bytes} (member : k ∈ (s.sink j).db) :
    k ∈ job.stored j ∨ job.partitioner k job.outputs = j ∧
      ∃ p < job.inputs, ∃ v, (k,v) ∈ job.pairs p := by
  obtain old | ⟨item,logged,rfl⟩ := (holds.sinks j within).keys k member
  · exact .inl old
  · obtain ⟨inside,listed,target⟩ := holds.logged within logged
    exact .inr ⟨target,item.1,inside,item.2.2,listed⟩

theorem Invariant.all_served {s : State} (holds : Invariant job s) {j : Nat} (within : j < job.outputs)
    (stop : (s.sink j).reader = .stopped) : ∀ p < job.inputs, (s.lane p j).servicer = .done := by
  have sinkOk := holds.sinks j within
  have none_left := sinkOk.watched.seen (.inr (.inr stop))
  have empty : unserved job s j = 0 := by
    rw [sinkOk.active] at none_left
    omega
  intro p inside
  by_contra going
  have member := Finset.card_eq_zero.mp empty
  rw [Finset.filter_eq_empty_iff] at member
  exact member (Finset.mem_range.mpr inside) going

theorem Invariant.delivered {s : State} (holds : Invariant job s) (finished : job.Finished s) {p j : Nat}
    (inside : p < job.inputs) (within : j < job.outputs) :
    valuesOf p (s.sink j).log = (job.pairs p).filter fun pair => job.target pair = j := by
  obtain ⟨mapped,served,committed⟩ := finished
  obtain ⟨mapDone,scatterDone⟩ := mapped p inside
  have sourceOk := holds.sources p inside
  obtain ⟨todo,batch⟩ := sourceOk.drained (by simp [mapDone])
  obtain ⟨stop,idle⟩ := sourceOk.finished (by simp [scatterDone])
  obtain ⟨got,queue⟩ := sourceOk.reader.stopped stop
  have ahead : (s.source p).ahead = [] := by simp [Source.ahead,todo,batch,idle,got,queue]
  have laneOk := holds.lanes p inside j within
  have servicer := served p inside j within
  obtain ⟨ended,stream⟩ := laneOk.served (.inr servicer)
  obtain ⟨laneStop,encoder⟩ := laneOk.ended ended
  obtain ⟨laneGot,laneQueue⟩ := laneOk.reader.stopped laneStop
  have laneBatch := laneOk.drained (by simp [scatterDone,ScatterStage.closed])
  have way : (s.lane p j).way = [] := by
    simp [Lane.way,servicer,stream,encoder,laneGot,laneQueue,laneBatch]
  have sinkOk := holds.sinks j within
  obtain ⟨sinkStop,pairs⟩ := sinkOk.committed (committed j within)
  have conserved := holds.conserved p inside j within
  rw [ahead,way] at conserved
  simpa [Sink.share,pairs,sinkOk.watched.drained sinkStop] using conserved

theorem Invariant.arrived {s : State} (holds : Invariant job s) (finished : job.Finished s) {j : Nat}
    (within : j < job.outputs) (k : Bytes) :
    (valuesOf k ((s.sink j).log.map Prod.snd)).Perm
      (if job.partitioner k job.outputs = j then valuesOf k job.mapped else []) := by
  have sinkOk := holds.sinks j within
  have grouped := perm_flatMap_valuesOf List.nodup_range (s.sink j).log fun item member =>
    List.mem_range.mpr (sinkOk.known item (List.mem_append_left _ member))
  have shares : (List.range job.inputs).flatMap (fun p => valuesOf p (s.sink j).log) =
      job.mapped.filter fun pair => job.target pair = j := by
    rw [Job.mapped,List.filter_flatMap]
    apply List.flatMap_congr
    intro p member
    exact holds.delivered finished (List.mem_range.mp member) within
  rw [shares] at grouped
  have values := valuesOf_perm k grouped
  have kept := valuesOf_filter k job.mapped fun k => decide (job.partitioner k job.outputs = j)
  simp only [decide_eq_true_eq] at kept
  exact values.trans (kept ▸ List.Perm.refl _)

theorem Invariant.finished_store {s : State} (holds : Invariant job s) (storable : Storable job)
    (lawful : ∀ op, job.reduce_op = some op →
      (∀ a b c, op (op a b) c = op a (op b c)) ∧ ∀ a b, op a b = op b a)
    (distinct : job.reduce_op = none → (job.mapped.map Prod.fst).Nodup) (finished : job.Finished s)
    {j : Nat} (within : j < job.outputs) (fresh : job.stored j = ∅) (k : Bytes) :
    (s.sink j).db[k]? =
      if job.partitioner k job.outputs = j then reduction job.reduce_op (valuesOf k job.mapped)
      else none := by
  have accepted : ∀ item ∈ (s.sink j).log, job.accepts item.2.1 = true := fun item member =>
    have ⟨inside,listed,_⟩ := holds.logged within member
    storable.accepted item.1 inside item.2 listed
  have content := (holds.sinks j within).db accepted k
  have perm := holds.arrived finished within k
  rw [fresh,Std.ExtTreeMap.getElem?_empty,Option.toList_none,List.nil_append] at content
  rw [content,reduction_perm lawful _ perm]
  · split
    · rfl
    · cases job.reduce_op <;> rfl
  · intro nothing
    split
    · exact valuesOf_length_le_one (distinct nothing) k
    · exact Nat.zero_le 1

end

/-- After a job in which no step failed, output `j` holds under each produced key that the
partitioner sends to `j` the reduction of all its values, and nothing else; and the
broker of an output ends only after all its writers have finished. -/
theorem shuffle (config : Config) (inputs outputs : Nat) (input : Nat → Db)
    (map_op : Nat → List Pair → MapResult) (partitioner : Bytes → Nat → Nat)
    (reduce_op : Option (Bytes → Bytes → Bytes))
    (storable : Storable (mapReduce config inputs outputs input map_op partitioner reduce_op))
    (lawful : ∀ op, reduce_op = some op →
      (∀ a b c, op (op a b) c = op a (op b c)) ∧ ∀ a b, op a b = op b a)
    (distinct : reduce_op = none →
      ((mapReduce config inputs outputs input map_op partitioner reduce_op).mapped.map Prod.fst).Nodup) :
    ∀ s, (mapReduce config inputs outputs input map_op partitioner reduce_op).system.Reachable s →
      ((mapReduce config inputs outputs input map_op partitioner reduce_op).Finished s →
        ∀ j < outputs, ∀ k, (s.sink j).db[k]? =
          if partitioner k outputs = j then
            reduction reduce_op (valuesOf k
              (mapReduce config inputs outputs input map_op partitioner reduce_op).mapped)
          else none) ∧
      ∀ j < outputs, (s.sink j).reader = .stopped → ∀ p < inputs, (s.lane p j).servicer = .done := by
  intro s reached
  have holds := reachable_invariant storable.nonempty reached
  exact ⟨fun finished j within k =>
      holds.finished_store storable lawful distinct finished within rfl k,
    fun j within stop p inside => holds.all_served within stop p inside⟩

/-- Two inputs with one key, whose values are added up. -/
def addition : Job :=
  mapReduce ⟨fun k => !k.isEmpty,1,64,4⟩ 2 1 (fun p => (∅ : Db).insert [7] [UInt8.ofNat p + 1])
    (fun _ pairs => .iterable pairs) (fun _ _ => 0) (some fun a b => [a.sum + b.sum])

def oneByOne : List Label :=
  let turns : List (Nat × Label) := [(1,.store 0),(7,.map 0),(7,.map 1),(14,.scatter 0),
    (14,.scatter 1),(10,.encode 0 0),(10,.encode 1 0),(4,.serve 0 0),(4,.serve 1 0),(15,.store 0)]
  turns.flatMap fun (n,a) => List.replicate n a

theorem shuffle_addition : ∃ s, addition.system.Reachable s ∧ addition.Finished s ∧
    (s.sink 0).db[([7] : Bytes)]? = some [3] := by
  have ends : (addition.system.exec addition.initial oneByOne).any
      (fun s => decide (addition.Finished s)) = true := by decide +kernel
  obtain ⟨s,run,finished⟩ := (Option.any_eq_true _ _).mp ends
  rw [decide_eq_true_iff] at finished
  have reached : addition.system.Reachable s := ⟨_,oneByOne,rfl,run⟩
  have storable : Storable addition := ⟨by unfold KeysNonempty; decide +kernel,by decide +kernel⟩
  have lawful : ∀ op, addition.reduce_op = some op →
      (∀ a b c, op (op a b) c = op a (op b c)) ∧ ∀ a b, op a b = op b a := by
    rintro _ ⟨⟩
    exact ⟨fun a b c => by simp [UInt8.add_assoc],fun a b => by simp [UInt8.add_comm]⟩
  have distinct : addition.reduce_op = none → (addition.mapped.map Prod.fst).Nodup := fun nothing => by
    simp [addition,mapReduce] at nothing
  have result := (shuffle _ _ _ _ _ _ _ storable lawful distinct s reached).1 finished 0 (by decide) [7]
  exact ⟨s,reached,finished,result.trans (by decide +kernel)⟩

end Eggroll.Shuffle
