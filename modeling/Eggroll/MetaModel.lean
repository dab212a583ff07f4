import Eggroll.Library.Protobuf

/-! The meta model of the Python client: message declarations of `meta.proto`, and the
classes of `_core_model.py` with their conversions. A field that may be `None` is an
option; a field of another class is read with the default instance when it is absent. -/
namespace Eggroll.MetaModel
open Library Library.Protobuf

inductive MessageType
  | endpoint | resource | serverNode | processor | processorBatch | functor | partitioner | serdes | pair | pairBatch
  | storeLocator | store | partition | jobIo | job | task | sessionMeta
  | countResponse | getRequest | getResponse | putRequest | putResponse | getAllRequest
  | deleteRequest | deleteResponse | mapPartitionsWithIndexRequest | reduceResponse
  | aggregateRequest | aggregateResponse | withStoresResponse
  | transferHeader | transferBatch | rollSiteHeader
  | rollSitePullGetHeaderRequest | rollSitePullGetHeaderResponse
  | rollSitePullGetPartitionStatusRequest | rollSitePullGetPartitionStatusResponse
  | intKeyIntValuePair | partitionStatus
  | rollSitePullClearStatusRequest | rollSitePullClearStatusResponse
deriving DecidableEq

def MessageType.fields : MessageType → List (FieldDescriptor MessageType)
  | .endpoint => [⟨1,"host",.string⟩,⟨2,"port",.int32⟩]
  | .resource => [⟨1,"type",.string⟩,⟨2,"total",.int64⟩,⟨3,"used",.int64⟩,⟨4,"allocated",.int64⟩]
  | .serverNode => [⟨1,"id",.int64⟩,⟨2,"name",.string⟩,⟨3,"clusterId",.int64⟩,
      ⟨4,"endpoint",.message .endpoint⟩,⟨5,"nodeType",.string⟩,⟨6,"status",.string⟩,
      ⟨7,"resources",.repeated .resource⟩]
  | .processor => [⟨1,"id",.int64⟩,⟨2,"serverNodeId",.int64⟩,⟨3,"name",.string⟩,
      ⟨4,"processorType",.string⟩,⟨5,"status",.string⟩,⟨6,"commandEndpoint",.message .endpoint⟩,
      ⟨7,"transferEndpoint",.message .endpoint⟩,⟨9,"pid",.int32⟩,⟨8,"options",.stringMap⟩,
      ⟨10,"tag",.string⟩]
  | .processorBatch => [⟨1,"id",.int64⟩,⟨2,"name",.string⟩,⟨3,"processors",.repeated .processor⟩,⟨4,"tag",.string⟩]
  | .functor => [⟨1,"name",.string⟩,⟨2,"serdes",.string⟩,⟨3,"body",.bytes⟩,⟨4,"options",.stringMap⟩]
  | .partitioner => [⟨1,"type",.int32⟩,⟨2,"body",.bytes⟩]
  | .serdes => [⟨1,"type",.int32⟩,⟨2,"body",.bytes⟩]
  | .pair => [⟨1,"key",.bytes⟩,⟨2,"value",.bytes⟩]
  | .pairBatch => [⟨1,"pairs",.repeated .pair⟩]
  | .storeLocator => [⟨1,"id",.int64⟩,⟨2,"store_type",.string⟩,⟨3,"namespace",.string⟩,
      ⟨4,"name",.string⟩,⟨5,"path",.string⟩,⟨6,"total_partitions",.int32⟩,
      ⟨7,"key_serdes_type",.int32⟩,⟨8,"value_serdes_type",.int32⟩,⟨9,"partitioner_type",.int32⟩]
  | .store => [⟨1,"storeLocator",.message .storeLocator⟩,⟨2,"partitions",.repeated .partition⟩,
      ⟨3,"options",.stringMap⟩]
  | .partition => [⟨1,"id",.int32⟩,⟨2,"storeLocator",.message .storeLocator⟩,
      ⟨3,"processor",.message .processor⟩,⟨4,"serverNodeId",.int64⟩,⟨5,"rankInNode",.int32⟩]
  | .jobIo => [⟨1,"store",.message .store⟩,⟨2,"key_serdes",.message .serdes⟩,
      ⟨3,"value_serdes",.message .serdes⟩,⟨4,"partitioner",.message .partitioner⟩]
  | .job => [⟨1,"id",.string⟩,⟨2,"name",.string⟩,⟨3,"inputs",.repeated .jobIo⟩,
      ⟨4,"outputs",.repeated .jobIo⟩,⟨5,"functors",.repeated .functor⟩,⟨6,"options",.stringMap⟩]
  | .task => [⟨1,"id",.string⟩,⟨2,"name",.string⟩,⟨3,"inputs",.repeated .partition⟩,
      ⟨4,"outputs",.repeated .partition⟩,⟨5,"job",.message .job⟩]
  | .sessionMeta => [⟨1,"id",.string⟩,⟨2,"name",.string⟩,⟨3,"status",.string⟩,⟨4,"tag",.string⟩,
      ⟨5,"processors",.repeated .processor⟩,⟨6,"options",.stringMap⟩]
  | .countResponse => [⟨1,"value",.int64⟩]
  | .getRequest => [⟨1,"key",.bytes⟩]
  | .getResponse => [⟨1,"key",.bytes⟩,⟨2,"value",.bytes⟩,⟨3,"exists",.bool⟩]
  | .putRequest => [⟨1,"key",.bytes⟩,⟨2,"value",.bytes⟩]
  | .putResponse => [⟨1,"key",.bytes⟩,⟨2,"value",.bytes⟩,⟨3,"success",.bool⟩]
  | .getAllRequest => [⟨1,"limit",.int64⟩]
  | .deleteRequest => [⟨1,"key",.bytes⟩]
  | .deleteResponse => [⟨1,"key",.bytes⟩,⟨2,"success",.bool⟩]
  | .mapPartitionsWithIndexRequest => [⟨1,"shuffle",.bool⟩]
  | .reduceResponse => [⟨1,"id",.int64⟩,⟨2,"value",.bytes⟩]
  | .aggregateRequest => [⟨1,"zero_value",.bytes⟩]
  | .aggregateResponse => [⟨1,"id",.int64⟩,⟨2,"value",.bytes⟩]
  | .withStoresResponse => [⟨1,"id",.int64⟩,⟨2,"value",.bytes⟩]
  | .transferHeader => [⟨1,"id",.int32⟩,⟨2,"tag",.string⟩,⟨3,"totalSize",.int64⟩,
      ⟨4,"status",.string⟩,⟨5,"ext",.bytes⟩]
  | .transferBatch => [⟨1,"header",.message .transferHeader⟩,⟨2,"batchSize",.int64⟩,⟨3,"data",.bytes⟩]
  | .rollSiteHeader => [⟨1,"rollSiteSessionId",.string⟩,⟨2,"name",.string⟩,⟨3,"tag",.string⟩,
      ⟨4,"srcRole",.string⟩,⟨5,"srcPartyId",.string⟩,⟨6,"dstRole",.string⟩,⟨7,"dstPartyId",.string⟩,
      ⟨8,"dataType",.string⟩,⟨10,"options",.stringMap⟩,⟨15,"totalPartitions",.int32⟩,
      ⟨16,"partitionId",.int32⟩,⟨17,"totalStreams",.int64⟩,⟨18,"totalBatches",.int64⟩,
      ⟨20,"streamSeq",.int64⟩,⟨21,"batchSeq",.int64⟩,⟨30,"stage",.string⟩]
  | .rollSitePullGetHeaderRequest => [⟨1,"tag",.string⟩,⟨2,"timeout",.double⟩]
  | .rollSitePullGetHeaderResponse => [⟨1,"header",.message .rollSiteHeader⟩]
  | .rollSitePullGetPartitionStatusRequest => [⟨1,"tag",.string⟩,⟨2,"timeout",.double⟩]
  | .rollSitePullGetPartitionStatusResponse => [⟨1,"partition_id",.int64⟩,
      ⟨2,"status",.message .partitionStatus⟩]
  | .intKeyIntValuePair => [⟨1,"key",.int64⟩,⟨2,"value",.int64⟩]
  | .partitionStatus => [⟨1,"tag",.string⟩,⟨2,"is_finished",.bool⟩,⟨3,"total_batches",.int64⟩,
      ⟨4,"batch_seq_to_pair_counter",.repeated .intKeyIntValuePair⟩,⟨5,"total_streams",.int64⟩,
      ⟨6,"stream_seq_to_pair_counter",.repeated .intKeyIntValuePair⟩,
      ⟨7,"stream_seq_to_batch_seq",.repeated .intKeyIntValuePair⟩,⟨8,"total_pairs",.int64⟩,
      ⟨9,"data_type",.string⟩]
  | .rollSitePullClearStatusRequest => [⟨1,"tag",.string⟩]
  | .rollSitePullClearStatusResponse => []

instance : Schema MessageType := ⟨MessageType.fields⟩

abbrev Proto := Message MessageType

abbrev Argument := Value MessageType

/-- The branch of `_stringify` for a string. -/
def _stringify (data : String) : String := data

def _stringify_dict (a_dict : StringMap) : StringMap :=
  .ofList (a_dict.toList.map fun item => (_stringify item.1,_stringify item.2)) compare

def _map_and_listify {α β : Type} (map_func : α → β) (a_list : List α) : List β := a_list.map map_func

def _to_proto {α : Type} (to_proto : α → Except Raised Proto) : Option α → Except Raised Argument
  | some rpc_message => do return .message (← to_proto rpc_message)
  | none => .ok .unset

def _elements_to_proto {α : Type} (to_proto : α → Except Raised Proto) (rpc_message_list : List α) :
    Except Raised Argument := do
  return .repeated (← rpc_message_list.mapM to_proto)

/-- An attribute of a message is never `None`, so the parser always runs. -/
def _from_proto {α : Type} (parser : Proto → α) (rpc_message : Proto) : Option α :=
  some (parser rpc_message)

/-- A method call on a field that may be `None`. -/
def notNone {α : Type} : Option α → Except Raised α
  | some rpc_message => .ok rpc_message
  | none => .error .attributeError

structure ErEndpoint where
  host : String
  port : Int

namespace ErEndpoint

def to_proto (self : ErEndpoint) : Except Raised Proto :=
  construct .endpoint [("host",.string self.host),("port",.int self.port)]

def from_proto (pb_message : Proto) : ErEndpoint where
  host := pb_message.string "host"
  port := pb_message.int "port"

end ErEndpoint

structure ErServerNode where
  id : Int
  name : String
  cluster_id : Int
  endpoint : Option ErEndpoint
  node_type : String
  status : String

namespace ErServerNode

def to_proto (self : ErServerNode) : Except Raised Proto := do
  construct .serverNode [("id",.int self.id),("name",.string self.name),
    ("clusterId",.int self.cluster_id),("endpoint",← _to_proto ErEndpoint.to_proto self.endpoint),
    ("nodeType",.string self.node_type),("status",.string self.status)]

def from_proto (pb_message : Proto) : ErServerNode where
  id := pb_message.int "id"
  name := pb_message.string "name"
  cluster_id := pb_message.int "clusterId"
  endpoint := _from_proto ErEndpoint.from_proto (pb_message.message .endpoint "endpoint")
  node_type := pb_message.string "nodeType"
  status := pb_message.string "status"

end ErServerNode

structure ErProcessor where
  id : Int
  server_node_id : Int
  name : String
  processor_type : String
  status : String
  command_endpoint : Option ErEndpoint
  transfer_endpoint : Option ErEndpoint
  pid : Int
  options : StringMap
  tag : String

namespace ErProcessor

def init (self : ErProcessor) : ErProcessor :=
  { self with transfer_endpoint := self.transfer_endpoint <|> self.command_endpoint }

def to_proto (self : ErProcessor) : Except Raised Proto := do
  let command_endpoint ← notNone self.command_endpoint
  let command_endpoint ← command_endpoint.to_proto
  let transfer_endpoint ← notNone self.transfer_endpoint
  let transfer_endpoint ← transfer_endpoint.to_proto
  construct .processor [("id",.int self.id),("serverNodeId",.int self.server_node_id),
    ("name",.string self.name),("processorType",.string self.processor_type),
    ("status",.string self.status),("commandEndpoint",.message command_endpoint),
    ("transferEndpoint",.message transfer_endpoint),("pid",.int self.pid),
    ("options",.stringMap (_stringify_dict self.options)),("tag",.string self.tag)]

def from_proto (pb_message : Proto) : ErProcessor := init {
  id := pb_message.int "id"
  server_node_id := pb_message.int "serverNodeId"
  name := pb_message.string "name"
  processor_type := pb_message.string "processorType"
  status := pb_message.string "status"
  command_endpoint := some (ErEndpoint.from_proto (pb_message.message .endpoint "commandEndpoint"))
  transfer_endpoint := some (ErEndpoint.from_proto (pb_message.message .endpoint "transferEndpoint"))
  pid := pb_message.int "pid"
  options := pb_message.stringMap "options"
  tag := pb_message.string "tag" }

end ErProcessor

structure ErProcessorBatch where
  id : Int
  name : String
  processors : List ErProcessor
  tag : String

namespace ErProcessorBatch

def to_proto (self : ErProcessorBatch) : Except Raised Proto := do
  construct .processorBatch [("id",.int self.id),("name",.string self.name),
    ("processors",← _elements_to_proto ErProcessor.to_proto self.processors),("tag",.string self.tag)]

def from_proto (pb_message : Proto) : ErProcessorBatch where
  id := pb_message.int "id"
  name := pb_message.string "name"
  processors := _map_and_listify ErProcessor.from_proto (pb_message.repeated "processors")
  tag := pb_message.string "tag"

end ErProcessorBatch

structure ErFunctor where
  name : String
  body : Bytes
  options : StringMap

namespace ErFunctor

def to_proto (self : ErFunctor) : Except Raised Proto :=
  construct .functor [("name",.string self.name),("body",.bytes self.body),
    ("options",.stringMap (_stringify_dict self.options))]

def from_proto (pb_message : Proto) : ErFunctor where
  name := pb_message.string "name"
  body := pb_message.bytes "body"
  options := pb_message.stringMap "options"

end ErFunctor

structure ErPair where
  key : Bytes
  value : Bytes

namespace ErPair

def to_proto (self : ErPair) : Except Raised Proto :=
  construct .pair [("key",.bytes self.key),("value",.bytes self.value)]

def from_proto (pb_message : Proto) : ErPair where
  key := pb_message.bytes "key"
  value := pb_message.bytes "value"

end ErPair

structure ErPairBatch where
  pairs : List ErPair

namespace ErPairBatch

def to_proto (self : ErPairBatch) : Except Raised Proto := do
  construct .pairBatch [("pairs",← _elements_to_proto ErPair.to_proto self.pairs)]

def from_proto (pb_message : Proto) : ErPairBatch where
  pairs := _map_and_listify ErPair.from_proto (pb_message.repeated "pairs")

end ErPairBatch

structure ErStoreLocator where
  id : Int
  store_type : String
  nameSpace : String
  name : String
  path : String
  total_partitions : Int
  key_serdes_type : Int
  value_serdes_type : Int
  partitioner_type : Int

namespace ErStoreLocator

def to_proto (self : ErStoreLocator) : Except Raised Proto :=
  construct .storeLocator [("id",.int self.id),("store_type",.string self.store_type),
    ("namespace",.string self.nameSpace),("name",.string self.name),("path",.string self.path),
    ("total_partitions",.int self.total_partitions),("key_serdes_type",.int self.key_serdes_type),
    ("value_serdes_type",.int self.value_serdes_type),
    ("partitioner_type",.int self.partitioner_type)]

def from_proto (pb_message : Proto) : ErStoreLocator where
  id := pb_message.int "id"
  store_type := pb_message.string "store_type"
  nameSpace := pb_message.string "namespace"
  name := pb_message.string "name"
  path := pb_message.string "path"
  total_partitions := pb_message.int "total_partitions"
  key_serdes_type := pb_message.int "key_serdes_type"
  value_serdes_type := pb_message.int "value_serdes_type"
  partitioner_type := pb_message.int "partitioner_type"

end ErStoreLocator

structure ErPartition where
  id : Int
  store_locator : Option ErStoreLocator
  processor : Option ErProcessor
  rank_in_node : Int

namespace ErPartition

def to_proto (self : ErPartition) : Except Raised Proto := do
  construct .partition [("id",.int self.id),
    ("storeLocator",← _to_proto ErStoreLocator.to_proto self.store_locator),
    ("processor",← _to_proto ErProcessor.to_proto self.processor),
    ("rankInNode",.int self.rank_in_node)]

def from_proto (pb_message : Proto) : ErPartition where
  id := pb_message.int "id"
  store_locator := some (ErStoreLocator.from_proto (pb_message.message .storeLocator "storeLocator"))
  processor := some (ErProcessor.from_proto (pb_message.message .processor "processor"))
  rank_in_node := pb_message.int "rankInNode"

end ErPartition

structure ErStore where
  store_locator : ErStoreLocator
  partitions : List ErPartition
  options : StringMap

namespace ErStore

def to_proto (self : ErStore) : Except Raised Proto := do
  construct .store [("storeLocator",.message (← self.store_locator.to_proto)),
    ("partitions",← _elements_to_proto ErPartition.to_proto self.partitions),
    ("options",.stringMap (_stringify_dict self.options))]

def from_proto (pb_message : Proto) : ErStore where
  store_locator := ErStoreLocator.from_proto (pb_message.message .storeLocator "storeLocator")
  partitions := _map_and_listify ErPartition.from_proto (pb_message.repeated "partitions")
  options := pb_message.stringMap "options"

end ErStore

structure ErPartitioner where
  type : Int
  body : Bytes

namespace ErPartitioner

def to_proto (self : ErPartitioner) : Except Raised Proto :=
  construct .partitioner [("type",.int self.type),("body",.bytes self.body)]

def from_proto (pb_message : Proto) : ErPartitioner where
  type := pb_message.int "type"
  body := pb_message.bytes "body"

end ErPartitioner

structure ErSerdes where
  type : Int
  body : Bytes

namespace ErSerdes

def to_proto (self : ErSerdes) : Except Raised Proto :=
  construct .serdes [("type",.int self.type),("body",.bytes self.body)]

def from_proto (pb_message : Proto) : ErSerdes where
  type := pb_message.int "type"
  body := pb_message.bytes "body"

end ErSerdes

structure ErJobIo where
  store : ErStore
  key_serdes : Option ErSerdes
  value_serdes : Option ErSerdes
  partitioner : Option ErPartitioner

namespace ErJobIo

def to_proto (self : ErJobIo) : Except Raised Proto := do
  construct .jobIo [("store",.message (← self.store.to_proto)),
    ("key_serdes",← _to_proto ErSerdes.to_proto self.key_serdes),
    ("value_serdes",← _to_proto ErSerdes.to_proto self.value_serdes),
    ("partitioner",← _to_proto ErPartitioner.to_proto self.partitioner)]

def from_proto (pb_message : Proto) : ErJobIo where
  store := ErStore.from_proto (pb_message.message .store "store")
  key_serdes := _from_proto ErSerdes.from_proto (pb_message.message .serdes "key_serdes")
  value_serdes := _from_proto ErSerdes.from_proto (pb_message.message .serdes "value_serdes")
  partitioner := _from_proto ErPartitioner.from_proto (pb_message.message .partitioner "partitioner")

end ErJobIo

structure ErJob where
  id : String
  name : String
  inputs : List ErJobIo
  outputs : List ErJobIo
  functors : List ErFunctor
  options : StringMap

namespace ErJob

def to_proto (self : ErJob) : Except Raised Proto := do
  construct .job [("id",.string self.id),("name",.string self.name),
    ("inputs",← _elements_to_proto ErJobIo.to_proto self.inputs),
    ("outputs",← _elements_to_proto ErJobIo.to_proto self.outputs),
    ("functors",← _elements_to_proto ErFunctor.to_proto self.functors),
    ("options",.stringMap (_stringify_dict self.options))]

def from_proto (pb_message : Proto) : ErJob where
  id := pb_message.string "id"
  name := pb_message.string "name"
  inputs := _map_and_listify ErJobIo.from_proto (pb_message.repeated "inputs")
  outputs := _map_and_listify ErJobIo.from_proto (pb_message.repeated "outputs")
  functors := _map_and_listify ErFunctor.from_proto (pb_message.repeated "functors")
  options := pb_message.stringMap "options"

end ErJob

structure ErTask where
  id : String
  name : String
  inputs : List ErPartition
  outputs : List ErPartition
  job : Option ErJob

namespace ErTask

def to_proto (self : ErTask) : Except Raised Proto := do
  construct .task [("id",.string self.id),("name",.string self.name),
    ("inputs",← _elements_to_proto ErPartition.to_proto self.inputs),
    ("outputs",← _elements_to_proto ErPartition.to_proto self.outputs),
    ("job",← _to_proto ErJob.to_proto self.job)]

def from_proto (pb_message : Proto) : ErTask where
  id := pb_message.string "id"
  name := pb_message.string "name"
  inputs := _map_and_listify ErPartition.from_proto (pb_message.repeated "inputs")
  outputs := _map_and_listify ErPartition.from_proto (pb_message.repeated "outputs")
  job := some (ErJob.from_proto (pb_message.message .job "job"))

end ErTask

structure ErSessionMeta where
  id : String
  name : String
  status : String
  tag : String
  processors : List ErProcessor
  options : StringMap

namespace ErSessionMeta

def to_proto (self : ErSessionMeta) : Except Raised Proto := do
  construct .sessionMeta [("id",.string self.id),("name",.string self.name),
    ("status",.string self.status),("tag",.string self.tag),
    ("processors",← _elements_to_proto ErProcessor.to_proto self.processors),
    ("options",.stringMap (_stringify_dict self.options))]

def from_proto (pb_message : Proto) : ErSessionMeta where
  id := pb_message.string "id"
  name := pb_message.string "name"
  status := pb_message.string "status"
  tag := pb_message.string "tag"
  processors := _map_and_listify ErProcessor.from_proto (pb_message.repeated "processors")
  options := pb_message.stringMap "options"

end ErSessionMeta

end Eggroll.MetaModel
