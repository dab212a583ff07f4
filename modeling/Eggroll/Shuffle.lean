import Mathlib.Data.Finset.Card
import Eggroll.BatchBroker
import Eggroll.BinBatch
import Eggroll.Store

/-! The shuffle of a map-reduce job (`_run_shuffle` with `TransferPair.scatter`, `send` and
`store_broker`): a map task and a scatter loop for each input partition, an encoder and a
stream for each pair of partitions, and a store task for each output partition. A step
that raises is not enabled, so the runs are those in which no step fails. -/
namespace Eggroll.Shuffle
open Library Format Broker BinBatch Store

/-- `TransferService._DEFAULT_QUEUE_SIZE`. -/
def DEFAULT_QUEUE_SIZE : Int := 10000

/-- What `map_op` returns: an iterable of pairs, or a value that goes under the key its
iterator stands at. -/
inductive MapResult
  | iterable (pairs : List Pair)
  | value (at_ : Nat) (value : Bytes)

/-- The pairs that are put into the shuffle broker; an iterator that is not on an entry
has the empty key. -/
def produced (map_op : Nat → List Pair → MapResult) (partition_id : Nat) (input : List Pair) :
    List Pair :=
  match map_op partition_id input with
  | .iterable pairs => pairs
  | .value at_ v => [((input[at_]?.map Prod.fst).getD [],v)]

structure Config where
  accepts : Bytes → Bool
  batch_size : Int
  sendbuf_size : Int
  maxsize : Int

/-- One job: what each input partition produces, and what the outputs already hold.
`entered` says that the shuffle broker is also a context manager, which makes it a
second writer. -/
structure Job extends Config where
  inputs : Nat
  outputs : Nat
  pairs : Nat → List Pair
  entered : Bool
  partitioner : Bytes → Nat → Nat
  reduce_op : Option (Bytes → Bytes → Bytes)
  stored : Nat → Db

def Job.mapped (job : Job) : List Pair := (List.range job.inputs).flatMap job.pairs

/-- The job of `MapReducePartitionsWithIndex` over the stores of the input partitions,
into new stores. -/
def mapReduce (config : Config) (inputs outputs : Nat) (input : Nat → Db)
    (map_op : Nat → List Pair → MapResult) (partitioner : Bytes → Nat → Nat)
    (reduce_op : Option (Bytes → Bytes → Bytes)) : Job where
  toConfig := config
  inputs := inputs
  outputs := outputs
  pairs p := produced map_op p (input p).toList
  entered := true
  partitioner := partitioner
  reduce_op := reduce_op
  stored _ := ∅

/-- The map task: putting, or in `FifoBroker.__exit__`, or done. -/
inductive MapStage
  | mapping
  | leaving (checked : Bool)
  | done
deriving DecidableEq

/-- The scatter loop: running, or closing the brokers of the targets below `left`. -/
inductive ScatterStage
  | running
  | closing (left : Nat)
deriving DecidableEq

structure Source where
  todo : List Pair
  stage : MapStage
  writer : BatchWriter Pair
  broker : FifoBroker (List Pair)
  reader : BatchReader Pair
  current : Option Pair
  scatter : ScatterStage

/-- `GrpcTransferServicer.send` for one stream. -/
inductive Servicer
  | receiving
  | putting (data : Option Bytes)
  | signalling
  | done
deriving DecidableEq

/-- One stream: the target's batch broker, the generator `pair_to_bin_batch` over it, the
batches under way and the servicer that receives them. -/
structure Lane where
  writer : BatchWriter Pair
  broker : FifoBroker (List Pair)
  reader : BatchReader Pair
  encoder : Option Encoder
  ended : Bool
  stream : List (Option Bytes)
  inited : Bool
  servicer : Servicer

/-- `do_store`. Batches and pairs carry their input partition for the statements only, as
does the log of the pairs stored. -/
structure Sink where
  started : Bool
  broker : FifoBroker (Nat × Option Bytes)
  reader : ReaderPc
  pairs : List (Nat × Pair)
  db : Db
  log : List (Nat × Pair)
  committed : Bool

structure State where
  source : Nat → Source
  lane : Nat → Nat → Lane
  sink : Nat → Sink

namespace Job
variable (job : Job)

def target (pair : Pair) : Nat := job.partitioner pair.1 job.outputs

def mapStep (src : Source) : Option Source :=
  match src.stage with
  | .mapping =>
    match src.todo with
    | pair :: rest =>
      (src.writer.put_step job.batch_size src.broker pair).map fun (w,b,returned) =>
        { src with writer := w, broker := b, todo := if returned then rest else src.todo }
    | [] =>
      (src.writer.close_step src.broker).map fun (w,b,returned) =>
        { src with
          writer := w
          broker := b
          stage := if returned then (if job.entered then .leaving false else .done) else .mapping }
  | .leaving false =>
    if src.broker.is_write_finished then none else some { src with stage := .leaving true }
  | .leaving true => some { src with stage := .done, broker := src.broker.decrement }
  | .done => none

def scatterRead (src : Source) : Option Source :=
  if src.reader.pc = .stopped then some { src with scatter := .closing job.outputs }
  else
    (src.reader.next_step src.broker).map fun (r,b,item) =>
      { src with reader := r, broker := b, current := item }

/-- A part of the encoder: its first `commit`, reading a pair, or the last batch. -/
def encodeStep (lane : Lane) : Option Lane :=
  if lane.ended then none
  else
    match lane.encoder with
    | none =>
      match commit job.sendbuf_size none with
      | .error _ => none
      | .ok (_,w) => some { lane with encoder := some ⟨w,0⟩ }
    | some e =>
      if lane.reader.pc = .stopped then
        match finish job.sendbuf_size e with
        | (batches,none) =>
          some { lane with encoder := none, ended := true, stream := lane.stream ++ batches }
        | (_,some _) => none
      else
        match lane.reader.next_step lane.broker with
        | none => none
        | some (r,b,none) => some { lane with reader := r, broker := b }
        | some (r,b,some pair) =>
          match turn job.sendbuf_size none e pair with
          | (batches,.next e') =>
            some { lane with
              reader := r, broker := b, encoder := some e', stream := lane.stream ++ batches }
          | _ => none

/-- A part of the servicer of the stream from partition `p`. -/
def serveStep (p : Nat) (lane : Lane) (sink : Sink) : Option (Lane × Sink) :=
  match lane.servicer with
  | .receiving =>
    match lane.stream with
    | data :: rest =>
      -- `get_broker` waits for the store task
      if sink.started && !sink.broker.is_write_finished then
        some ({ lane with stream := rest, inited := true, servicer := .putting data },sink)
      else none
    | [] =>
      if lane.ended && lane.inited && !sink.broker.is_write_finished then
        some ({ lane with servicer := .signalling },sink)
      else none
  | .putting data =>
    (sink.broker.queue_put (p,data)).map fun b =>
      ({ lane with servicer := .receiving },{ sink with broker := b })
  | .signalling =>
    some ({ lane with servicer := .done },{ sink with broker := sink.broker.decrement })
  | .done => none

def storeStep (sink : Sink) : Option Sink :=
  if !sink.started then some { sink with started := true }
  else
    match sink.pairs with
    | item :: rest =>
      match store job.accepts job.reduce_op sink.db item.2 with
      | .error _ => none
      | .ok db => some { sink with db := db, pairs := rest, log := sink.log ++ [item] }
    | [] =>
      if sink.reader = .stopped then
        if sink.committed then none else some { sink with committed := true }
      else
        match pull sink.broker sink.reader with
        | none => none
        | some (b,pc,none) => some { sink with broker := b, reader := pc }
        | some (b,pc,some (p,data)) =>
          (decoded data).map fun pairs =>
            { sink with broker := b, reader := pc, pairs := pairs.map fun pair => (p,pair) }

end Job

inductive Label
  | map (p : Nat)
  | scatter (p : Nat)
  | encode (p j : Nat)
  | serve (p j : Nat)
  | store (j : Nat)

namespace State
variable (s : State)

def setSource (p : Nat) (src : Source) : State := { s with source := Function.update s.source p src }

def setLane (p j : Nat) (lane : Lane) : State :=
  { s with lane := Function.update s.lane p (Function.update (s.lane p) j lane) }

def setSink (j : Nat) (sink : Sink) : State := { s with sink := Function.update s.sink j sink }

end State

namespace Job
variable (job : Job)

def scatterStep (s : State) (p : Nat) : Option State :=
  let src := s.source p
  match src.current with
  | some pair =>
    let j := job.target pair
    if j < job.outputs then
      ((s.lane p j).writer.put_step job.batch_size (s.lane p j).broker pair).map
        fun (w,b,returned) =>
          (s.setLane p j { s.lane p j with writer := w, broker := b }).setSource p
            { src with current := if returned then none else some pair }
    else none
  | none =>
    match src.scatter with
    | .running => (job.scatterRead src).map (s.setSource p)
    | .closing 0 => none
    | .closing (j + 1) =>
      ((s.lane p j).writer.close_step (s.lane p j).broker).map fun (w,b,returned) =>
        (s.setLane p j { s.lane p j with writer := w, broker := b }).setSource p
          { src with scatter := if returned then .closing j else .closing (j + 1) }

def step (s : State) : Label → Option State
  | .map p => if p < job.inputs then (job.mapStep (s.source p)).map (s.setSource p) else none
  | .scatter p => if p < job.inputs then job.scatterStep s p else none
  | .encode p j =>
    if p < job.inputs ∧ j < job.outputs then (job.encodeStep (s.lane p j)).map (s.setLane p j)
    else none
  | .serve p j =>
    if p < job.inputs ∧ j < job.outputs then
      (serveStep p (s.lane p j) (s.sink j)).map fun (lane,sink) =>
        (s.setLane p j lane).setSink j sink
    else none
  | .store j =>
    if j < job.outputs then (job.storeStep (s.sink j)).map (s.setSink j) else none

/-- The broker of `shuffle_write_broker` counts one writer, and one more when entered. -/
def writers : Int := if job.entered then 2 else 1

def initial : State where
  source p := ⟨job.pairs p,.mapping,⟨[],false⟩,⟨[],job.writers,job.maxsize⟩,⟨[],.loopWriters⟩,none,
    .running⟩
  lane _ _ := ⟨⟨[],false⟩,⟨[],1,job.maxsize⟩,⟨[],.loopWriters⟩,none,false,[],false,.receiving⟩
  sink j := ⟨false,⟨[],job.inputs,DEFAULT_QUEUE_SIZE⟩,.loopWriters,[],job.stored j,[],false⟩

def system : System State Label where
  start s := s = job.initial
  step := job.step

def Finished (s : State) : Prop :=
  (∀ p < job.inputs, (s.source p).stage = .done ∧ (s.source p).scatter = .closing 0) ∧
    (∀ p < job.inputs, ∀ j < job.outputs, (s.lane p j).servicer = .done) ∧
    ∀ j < job.outputs, (s.sink j).committed = true

instance (s : State) : Decidable (job.Finished s) :=
  inferInstanceAs (Decidable (_ ∧ _ ∧ _))

end Job
end Eggroll.Shuffle
