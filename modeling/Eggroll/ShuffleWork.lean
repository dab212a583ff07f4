import Eggroll.Library.Polling
import Eggroll.ShuffleConservation

/-! What is left to do for a shuffle: a number that every step of its tasks lowers, but for the
looks of a reader that finds nothing. A pair costs more the farther it is from its store. -/
namespace Eggroll.Broker
open Library
variable {α : Type}

namespace FifoBroker

def readable (b : FifoBroker α) : Prop := b.queue ≠ [] ∨ b.is_write_finished = true

def distance (b : FifoBroker α) (pc : ReaderPc) : Nat :=
  if b.empty = false then pc.toItem else if b.is_write_finished then pc.toStop else 0

/-- The steps that the batches in the queue cost at a price for each of their items. -/
def work (price : Nat) (b : FifoBroker (List α)) : Nat :=
  b.queue.length + price * b.queue.flatten.length

theorem distance_lt (b : FifoBroker α) (pc : ReaderPc) : b.distance pc < 6 := by
  unfold distance
  cases pc <;> split_ifs <;> decide

theorem room_of_empty {b : FifoBroker α} (empty : b.queue = []) : b.full = false := by
  simp only [full,empty,List.length_nil,Bool.and_eq_false_iff,decide_eq_false_iff_not]
  omega

theorem open_of_active {b : FifoBroker α} (active : 0 < b.active_writers) : b.is_write_finished = false := by
  simpa [is_write_finished] using active

end FifoBroker

private theorem pull_nearer {b b' : FifoBroker α} {pc pc' : ReaderPc} (readable : b.readable)
    (pulled : pull b pc = some (b',pc',none)) : b.distance pc' < b.distance pc := by
  cases queue : b.queue with
  | nil =>
    have finished : b.is_write_finished = true := readable.resolve_left fun items => items queue
    have empty : b.empty = true := by simp [FifoBroker.empty,queue]
    cases pc <;>
      simp only [pull,finished,empty,FifoBroker.queue_get,queue,if_true,Option.some.injEq,Prod.mk.injEq,
        reduceCtorEq] at pulled <;>
      obtain ⟨-,rfl,-⟩ := pulled <;>
      simp [FifoBroker.distance,empty,finished,ReaderPc.toStop]
  | cons item rest =>
    have items : b.empty = false := by simp [FifoBroker.empty,queue]
    have queued (pc : ReaderPc) : b.distance pc = pc.toItem := by rw [FifoBroker.distance,if_pos items]
    rw [queued,queued]
    cases finished : b.is_write_finished <;> cases pc <;>
      simp [pull,finished,items,FifoBroker.queue_get,queue] at pulled <;>
      obtain ⟨-,rfl⟩ := pulled <;>
      decide

namespace BatchWriter

/-- An item in the batch still has to be put, which makes it dearer than in the queue. -/
def work (price : Nat) (w : BatchWriter α) : Nat :=
  (price + 3) * w.batch.length + if w.checked then 0 else 1

private theorem commit_step_work (price : Nat) {w w' : BatchWriter α} {b b' : FifoBroker (List α)} {returned : Bool}
    (filled : w.batch ≠ []) (stepped : w.commit_step b = some (w',b',returned)) :
    returned = false ∧ w'.work price + b'.work price < w.work price + b.work price := by
  unfold commit_step at stepped
  split at stepped
  · simp only [FifoBroker.queue_put,Option.map_eq_some_iff,Option.ite_none_left_eq_some,
      Option.some.injEq,Prod.mk.injEq] at stepped
    obtain ⟨_,⟨_,rfl⟩,rfl,rfl,rfl⟩ := stepped
    have some_left := List.length_pos_iff.mpr filled
    refine ⟨rfl,?_⟩
    simp only [work,FifoBroker.work,List.length_append,List.flatten_append,List.flatten_singleton,
      List.length_nil,List.length_singleton,Nat.mul_add,Nat.add_mul,Nat.mul_zero,Bool.false_eq_true,if_false]
    omega
  · rename_i unchecked
    simp only [check,Option.map_eq_some_iff,Option.ite_none_left_eq_some,Option.some.injEq,
      Prod.mk.injEq] at stepped
    obtain ⟨_,⟨_,rfl⟩,rfl,rfl,rfl⟩ := stepped
    refine ⟨rfl,?_⟩
    simp only [work,unchecked,if_true]
    simp

theorem put_step_work (price : Nat) {batch_size : Int} {w w' : BatchWriter α} {b b' : FifoBroker (List α)}
    {item : α} {returned : Bool} (stepped : w.put_step batch_size b item = some (w',b',returned)) :
    w'.work price + b'.work price <
      w.work price + b.work price + if returned then price + 5 else 0 := by
  unfold put_step at stepped
  split at stepped
  · rename_i filled
    obtain ⟨rfl,less⟩ := commit_step_work price filled.2 stepped
    simpa using less
  · simp only [Option.some.injEq,Prod.mk.injEq] at stepped
    obtain ⟨rfl,rfl,rfl⟩ := stepped
    simp only [work,List.length_append,List.length_singleton,Nat.mul_add,Bool.false_eq_true,if_false,if_true]
    omega

theorem close_step_work (price : Nat) {w w' : BatchWriter α} {b b' : FifoBroker (List α)} {returned : Bool}
    (stepped : w.close_step b = some (w',b',returned)) :
    w'.work price + b'.work price < w.work price + b.work price + if returned then 2 else 0 := by
  unfold close_step at stepped
  split at stepped
  · rename_i filled
    obtain ⟨rfl,less⟩ := commit_step_work price filled stepped
    simpa using less
  · rename_i empty
    rw [ne_eq,not_not] at empty
    split at stepped
    · rename_i checked
      simp only [Option.some.injEq,Prod.mk.injEq] at stepped
      obtain ⟨rfl,rfl,rfl⟩ := stepped
      simp only [work,empty,checked,FifoBroker.work,FifoBroker.decrement,Bool.false_eq_true,if_false,if_true]
      omega
    · rename_i unchecked
      simp only [check,Option.map_eq_some_iff,Option.ite_none_left_eq_some,Option.some.injEq,
        Prod.mk.injEq] at stepped
      obtain ⟨_,⟨_,rfl⟩,rfl,rfl,rfl⟩ := stepped
      simp [work,empty,unchecked]

private theorem commit_step_enabled {w : BatchWriter α} {b : FifoBroker (List α)}
    (writing : b.is_write_finished = false) (room : b.full = false) : ∃ next, w.commit_step b = some next := by
  cases checked : w.checked <;> simp [commit_step,checked,check,writing,FifoBroker.queue_put,room]

theorem put_step_enabled (batch_size : Int) (w : BatchWriter α) (item : α) {b : FifoBroker (List α)}
    (writing : b.is_write_finished = false) (room : b.full = false) :
    ∃ next, w.put_step batch_size b item = some next := by
  unfold put_step
  split
  · exact commit_step_enabled writing room
  · exact ⟨_,rfl⟩

theorem close_step_enabled {w : BatchWriter α} {b : FifoBroker (List α)}
    (writing : b.is_write_finished = false) (room : b.full = false) : ∃ next, w.close_step b = some next := by
  unfold close_step
  split
  · exact commit_step_enabled writing room
  · split
    · exact ⟨_,rfl⟩
    · simp [check,writing]

end BatchWriter

namespace BatchReader

def readable (r : BatchReader α) (b : FifoBroker (List α)) : Prop := r.got ≠ [] ∨ b.readable

def work (price : Nat) (r : BatchReader α) (b : FifoBroker (List α)) : Nat :=
  price * r.got.length + b.work price

private theorem next_step_work (price : Nat) {r r' : BatchReader α} {b b' : FifoBroker (List α)} {item : Option α}
    (stepped : r.next_step b = some (r',b',item)) :
    (∃ x, item = some x ∧ r'.work price b' + price = r.work price b) ∨
      (item = none ∧ r'.work price b' < r.work price b) ∨
      (item = none ∧ b' = b ∧ r' = ⟨r.got,r'.pc⟩ ∧
        (r.readable b → b.distance r'.pc < b.distance r.pc)) := by
  unfold next_step at stepped
  split at stepped
  · rename_i x rest got
    simp only [Option.some.injEq,Prod.mk.injEq] at stepped
    obtain ⟨rfl,rfl,rfl⟩ := stepped
    refine .inl ⟨x,rfl,?_⟩
    simp only [work,got,List.length_cons,Nat.mul_add]
    omega
  · rename_i got
    simp only [Option.map_eq_some_iff,Prod.mk.injEq] at stepped
    obtain ⟨⟨b₁,pc,batch⟩,pulled,rfl,rfl,rfl⟩ := stepped
    obtain ⟨rfl,rfl⟩ | ⟨x,rfl,queue,-,-⟩ := pull_cases pulled
    · refine .inr (.inr ⟨rfl,rfl,by rw [got]; rfl,fun readable => ?_⟩)
      exact pull_nearer (readable.resolve_left fun items => items got) pulled
    · refine .inr (.inl ⟨rfl,?_⟩)
      simp only [work,FifoBroker.work,got,queue,Option.getD_some,List.flatten_cons,List.length_append,
        List.length_cons,List.length_nil,Nat.mul_add]
      omega

theorem next_step_enabled {r : BatchReader α} {b : FifoBroker (List α)} (going : r.pc ≠ .stopped) :
    ∃ next, r.next_step b = some next := by
  unfold next_step
  split
  · exact ⟨_,rfl⟩
  · cases stage : r.pc with
    | stopped => contradiction
    | queueGet => cases queue : b.queue <;> simp [pull,FifoBroker.queue_get,queue]
    | _ => simp [pull]

end BatchReader
end Eggroll.Broker

namespace Eggroll.Shuffle
open Library Format Broker BinBatch Store

def MapStage.work : MapStage → Nat
  | .mapping => 4
  | .leaving false => 2
  | .leaving true => 1
  | .done => 0

def ScatterStage.work (outputs : Nat) : ScatterStage → Nat
  | .running => 2 * outputs + 1
  | .closing left => 2 * left

def Source.work (outputs : Nat) (src : Source) : Nat :=
  16 * src.todo.length + src.stage.work + src.writer.work 11 + src.reader.work 11 src.broker +
    (if src.current.isSome then 10 else 0) + src.scatter.work outputs

/-- What an encoder leaves to do that has not ended: the pairs in its buffer and the last batch. -/
def Lane.toEncode (lane : Lane) : Nat :=
  if lane.ended then 0 else lane.encoder.elim 5 fun e => (held e).length + 4

def Servicer.work : Servicer → Nat
  | .receiving => 2
  | .putting data => (inflight data).length + 4
  | .signalling => 1
  | .done => 0

def streamWork (stream : List (Option Bytes)) : Nat := (stream.map fun data => (inflight data).length + 3).sum

def Lane.work (lane : Lane) : Nat :=
  lane.writer.work 5 + lane.reader.work 5 lane.broker + lane.toEncode + streamWork lane.stream +
    lane.servicer.work

def Sink.work (sink : Sink) : Nat :=
  (if sink.started then 0 else 1) + (sink.broker.queue.map fun item => (inflight item.2).length + 1).sum +
    sink.pairs.length + if sink.committed then 0 else 1

def Job.work (job : Job) (s : State) : Nat :=
  ∑ p ∈ Finset.range job.inputs, (s.source p).work job.outputs +
    ∑ p ∈ Finset.range job.inputs, ∑ j ∈ Finset.range job.outputs, (s.lane p j).work +
    ∑ j ∈ Finset.range job.outputs, (s.sink j).work

section
variable {job : Job}

theorem work_setSource (s : State) {p : Nat} (inside : p < job.inputs) (src : Source) :
    job.work (s.setSource p src) + (s.source p).work job.outputs = job.work s + src.work job.outputs := by
  have exchanged := sum_exchange (f := fun q => (s.source q).work job.outputs)
    (g := fun q => ((s.setSource p src).source q).work job.outputs) inside fun q other => by
      rw [setSource_source,if_neg other]
  simp only [setSource_source,if_true] at exchanged
  simp only [Job.work,setSource_source,setSource_lane,setSource_sink]
  omega

theorem work_setLane (s : State) {p j : Nat} (inside : p < job.inputs) (within : j < job.outputs) (lane : Lane) :
    job.work (s.setLane p j lane) + (s.lane p j).work = job.work s + lane.work := by
  have row := sum_exchange (f := fun i => (s.lane p i).work)
    (g := fun i => ((s.setLane p j lane).lane p i).work) within fun i other => by
      rw [setLane_lane,if_neg fun both => other both.2]
  have exchanged := sum_exchange (f := fun q => ∑ i ∈ Finset.range job.outputs, (s.lane q i).work)
    (g := fun q => ∑ i ∈ Finset.range job.outputs, ((s.setLane p j lane).lane q i).work) inside fun q other => by
      apply Finset.sum_congr rfl
      intro i _
      rw [setLane_lane,if_neg fun both => other both.1]
  have mine : (s.setLane p j lane).lane p j = lane := by rw [setLane_lane,if_pos ⟨rfl,rfl⟩]
  simp only [mine] at row
  simp only [Job.work,setLane_source,setLane_sink]
  omega

theorem work_setSink (s : State) {j : Nat} (within : j < job.outputs) (sink : Sink) :
    job.work (s.setSink j sink) + (s.sink j).work = job.work s + sink.work := by
  have exchanged := sum_exchange (f := fun i => (s.sink i).work)
    (g := fun i => ((s.setSink j sink).sink i).work) within fun i other => by
      rw [setSink_sink,if_neg other]
  simp only [setSink_sink,if_true] at exchanged
  simp only [Job.work,setSink_source,setSink_lane,setSink_sink]
  omega

theorem work_setBoth (s : State) {p j : Nat} (inside : p < job.inputs) (within : j < job.outputs) (lane : Lane)
    (src : Source) : job.work ((s.setLane p j lane).setSource p src) + (s.lane p j).work +
      (s.source p).work job.outputs = job.work s + lane.work + src.work job.outputs := by
  have lanes := work_setLane s inside within lane
  have sources := work_setSource (s.setLane p j lane) inside src
  rw [setLane_source] at sources
  omega

theorem mapStep_work {src src' : Source} (stepped : job.mapStep src = some src') :
    src'.work job.outputs < src.work job.outputs := by
  cases stage : src.stage with
  | mapping =>
    cases todo : src.todo with
    | cons pair rest =>
      simp only [Job.mapStep,stage,todo,Option.map_eq_some_iff,Prod.exists] at stepped
      obtain ⟨w,b,returned,put,rfl⟩ := stepped
      have less := BatchWriter.put_step_work 11 put
      cases returned <;>
        simp only [Source.work,BatchReader.work,todo,stage,List.length_cons,if_true,Bool.false_eq_true,if_false] at less ⊢ <;>
        omega
    | nil =>
      simp only [Job.mapStep,stage,todo,Option.map_eq_some_iff,Prod.exists] at stepped
      obtain ⟨w,b,returned,close,rfl⟩ := stepped
      have less := BatchWriter.close_step_work 11 close
      cases returned with
      | false =>
        simp only [Source.work,BatchReader.work,todo,stage,Bool.false_eq_true,if_false] at less ⊢
        omega
      | true =>
        have left : (if job.entered then MapStage.leaving false else .done).work ≤ 2 := by split <;> decide
        have mapping : MapStage.mapping.work = 4 := rfl
        simp only [Source.work,BatchReader.work,todo,stage,mapping,if_true] at less ⊢
        omega
  | leaving checked =>
    cases checked with
    | false =>
      simp only [Job.mapStep,stage,Option.ite_none_left_eq_some,Option.some.injEq] at stepped
      obtain ⟨_,rfl⟩ := stepped
      simp only [Source.work,stage,MapStage.work]
      omega
    | true =>
      simp only [Job.mapStep,stage,Option.some.injEq] at stepped
      subst stepped
      simp only [Source.work,stage,MapStage.work,BatchReader.work,FifoBroker.work,FifoBroker.decrement]
      omega
  | done => simp [Job.mapStep,stage] at stepped

/-- A look at the input: everything is as it was, but the reader is nearer to what there is. -/
def Source.Looked (src src' : Source) : Prop :=
  src' = { src with reader := ⟨src.reader.got,src'.reader.pc⟩ } ∧
    (src.reader.readable src.broker → src.broker.distance src'.reader.pc < src.broker.distance src.reader.pc)

theorem scatterRead_work {src src' : Source} (running : src.scatter = .running) (idle : src.current = none)
    (stepped : job.scatterRead src = some src') :
    src'.work job.outputs < src.work job.outputs ∨ src.Looked src' := by
  unfold Job.scatterRead at stepped
  split at stepped
  · simp only [Option.some.injEq] at stepped
    subst stepped
    left
    simp only [Source.work,running,ScatterStage.work]
    omega
  · simp only [Option.map_eq_some_iff,Prod.exists] at stepped
    obtain ⟨r,b,item,next,rfl⟩ := stepped
    obtain ⟨x,rfl,less⟩ | ⟨rfl,less⟩ | ⟨rfl,rfl,same,nearer⟩ := BatchReader.next_step_work 11 next
    · left
      simp only [Source.work,idle,Option.isSome_some,Option.isSome_none,if_true,Bool.false_eq_true,if_false]
      omega
    · left
      simp only [Source.work,idle]
      omega
    · right
      refine ⟨?_,nearer⟩
      rw [← same,idle]

private theorem streamWork_eq (stream : List (Option Bytes)) :
    streamWork stream = (stream.flatMap inflight).length + 3 * stream.length := by
  induction stream with
  | nil => rfl
  | cons data rest ih =>
    simp only [streamWork,List.map_cons,List.sum_cons,List.flatMap_cons,List.length_append,
      List.length_cons] at ih ⊢
    omega

private theorem turn_length_le (sendbuf_size : Int) (limit : Option Int) (e : Encoder) (pair : Pair) :
    (turn sendbuf_size limit e pair).1.length ≤ 1 := by
  unfold turn
  split
  · simp only
    split <;> exact Nat.zero_le 1
  · split
    · exact Nat.zero_le 1
    · split <;> exact Nat.le_refl 1
  · exact Nat.zero_le 1

theorem finish_length {sendbuf_size : Int} {e : Encoder} {batches : List (Option Bytes)}
    (finished : finish sendbuf_size e = (batches,none)) : batches.length = 1 := by
  unfold finish at finished
  split at finished <;> cases finished
  rfl

def Lane.Looked (lane lane' : Lane) : Prop :=
  lane' = { lane with reader := ⟨lane.reader.got,lane'.reader.pc⟩ } ∧
    (lane.reader.readable lane.broker → lane.broker.distance lane'.reader.pc < lane.broker.distance lane.reader.pc)

theorem encodeStep_work {closed : Bool} {lane lane' : Lane} (ok : LaneOk closed lane)
    (nonempty : ∀ pair ∈ lane.way, pair.1 ≠ []) (stepped : job.encodeStep lane = some lane') :
    lane'.work < lane.work ∨ lane.encoder ≠ none ∧ lane.Looked lane' := by
  unfold Job.encodeStep at stepped
  cases complete : lane.ended with
  | true => simp [complete] at stepped
  | false =>
    simp only [complete,Bool.false_eq_true,if_false] at stepped
    cases inside : lane.encoder with
    | none =>
      simp only [inside] at stepped
      split at stepped
      · contradiction
      · rename_i w committed
        simp only [Option.some.injEq] at stepped
        subst stepped
        have fresh := (commit_holds committed).2.sound (e := ⟨w,0⟩) fun _ member => by simp at member
        left
        simp only [Lane.work,Lane.toEncode,complete,inside,fresh.2,Option.elim_none,Option.elim_some,
          List.length_nil,Bool.false_eq_true,if_false]
        omega
    | some e =>
      have sound := ok.encoder e inside
      simp only [inside] at stepped
      split at stepped
      · split at stepped
        · rename_i batches finished
          simp only [Option.some.injEq] at stepped
          subst stepped
          have content := (finish_done sound finished).2
          have one := finish_length finished
          left
          simp only [Lane.work,Lane.toEncode,complete,inside,streamWork_eq,content,one,Option.elim_some,
            List.flatMap_append,List.length_append,Bool.false_eq_true,if_false,if_true]
          omega
        · contradiction
      · split at stepped
        · contradiction
        · rename_i r b next
          simp only [Option.some.injEq] at stepped
          subst stepped
          obtain ⟨_,impossible,_⟩ | ⟨_,less⟩ | ⟨_,rfl,same,nearer⟩ := BatchReader.next_step_work 5 next
          · contradiction
          · left
            simp only [Lane.work,Lane.toEncode,complete,inside]
            omega
          · exact .inr ⟨by simp,by rw [← same,complete,inside],nearer⟩
        · rename_i r b pair next
          obtain ⟨x,found,less⟩ | ⟨impossible,_⟩ | ⟨impossible,_⟩ := BatchReader.next_step_work 5 next
          · cases found
            have content := (BatchReader.next_step_spec ok.reader next).2.2
            have read : pair ∈ lane.reader.got ++ lane.broker.queue.flatten := by
              rw [← content]
              simp
            have listed : pair ∈ lane.way := by
              rcases List.mem_append.mp read with now | later
              · simp [Lane.way,now]
              · simp only [Lane.way,List.mem_append,later,true_or,or_true]
            split at stepped
            · rename_i batches e' turned
              simp only [Option.some.injEq] at stepped
              subst stepped
              have moved := congrArg List.length (turn_next sound (nonempty pair listed) turned).2.2
              have few := turn_length_le job.sendbuf_size none e pair
              simp only [turned] at few
              rw [List.length_append,List.length_append,List.length_singleton] at moved
              left
              simp only [Lane.work,Lane.toEncode,complete,inside,streamWork_eq,Option.elim_some,
                List.flatMap_append,List.length_append,Bool.false_eq_true,if_false]
              omega
            · contradiction
          · contradiction
          · contradiction

theorem serveStep_work {p : Nat} {lane lane' : Lane} {sink sink' : Sink}
    (stepped : Job.serveStep p lane sink = some (lane',sink')) :
    lane'.work + sink'.work < lane.work + sink.work := by
  unfold Job.serveStep at stepped
  split at stepped
  · rename_i stage
    split at stepped
    · rename_i data rest stream
      simp only [Option.ite_none_right_eq_some,Option.some.injEq,Prod.mk.injEq] at stepped
      obtain ⟨_,rfl,rfl⟩ := stepped
      simp only [Lane.work,Lane.toEncode,stage,stream,Servicer.work,streamWork,List.map_cons,List.sum_cons]
      omega
    · simp only [Option.ite_none_right_eq_some,Option.some.injEq,Prod.mk.injEq] at stepped
      obtain ⟨_,rfl,rfl⟩ := stepped
      simp only [Lane.work,Lane.toEncode,stage,Servicer.work]
      omega
  · rename_i data stage
    simp only [FifoBroker.queue_put,Option.map_eq_some_iff,Option.ite_none_left_eq_some,
      Option.some.injEq,Prod.mk.injEq] at stepped
    obtain ⟨b,⟨_,rfl⟩,rfl,rfl⟩ := stepped
    simp only [Lane.work,Lane.toEncode,Sink.work,stage,Servicer.work,List.map_append,List.sum_append,
      List.map_singleton,List.sum_singleton]
    omega
  · rename_i stage
    simp only [Option.some.injEq,Prod.mk.injEq] at stepped
    obtain ⟨rfl,rfl⟩ := stepped
    simp only [Lane.work,Lane.toEncode,Sink.work,stage,Servicer.work,FifoBroker.decrement]
    omega
  · contradiction

def Sink.Looked (sink sink' : Sink) : Prop :=
  sink' = { sink with reader := sink'.reader } ∧
    (sink.broker.readable → sink.broker.distance sink'.reader < sink.broker.distance sink.reader)

theorem storeStep_work {sink sink' : Sink} (whole : ∀ item ∈ sink.broker.queue, Whole item.2)
    (stepped : job.storeStep sink = some sink') : sink'.work < sink.work ∨
      (sink.started = true ∧ sink.pairs = []) ∧ sink.Looked sink' := by
  unfold Job.storeStep at stepped
  split at stepped
  · rename_i fresh
    simp only [Option.some.injEq] at stepped
    subst stepped
    rw [Bool.not_eq_true'] at fresh
    left
    simp [Sink.work,fresh]
  · rename_i started
    split at stepped
    · rename_i item rest todo
      split at stepped
      · contradiction
      · simp only [Option.some.injEq] at stepped
        subst stepped
        left
        simp only [Sink.work,todo,List.length_cons]
        omega
    · rename_i todo
      split at stepped
      · simp only [Option.ite_none_left_eq_some,Option.some.injEq] at stepped
        obtain ⟨going,rfl⟩ := stepped
        left
        simp only [Sink.work,going,if_true]
        simp
      · split at stepped
        · contradiction
        · rename_i b pc pulled
          simp only [Option.some.injEq] at stepped
          subst stepped
          obtain ⟨rfl,_⟩ | ⟨_,impossible,_⟩ := pull_cases pulled
          · exact .inr ⟨⟨by simpa using started,todo⟩,rfl,fun readable => pull_nearer readable pulled⟩
          · contradiction
        · rename_i b pc p data pulled
          simp only [Option.map_eq_some_iff] at stepped
          obtain ⟨pairs,taken,rfl⟩ := stepped
          obtain ⟨_,impossible⟩ | ⟨x,found,queue,_,_⟩ := pull_cases pulled
          · contradiction
          · cases found
            have content := (whole (p,data) (by simp [queue])).decoded
            obtain rfl := Option.some.inj (taken.symm.trans content)
            left
            simp only [Sink.work,todo,queue,List.map_cons,List.sum_cons,List.length_map,List.length_nil]
            omega

end
end Eggroll.Shuffle
