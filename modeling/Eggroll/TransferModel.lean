import Eggroll.MetaModel

/-! The classes of `_task_model.py` and `_transfer_model.py` with their conversions. -/
namespace Eggroll.MetaModel
open Library Library.Protobuf

structure CountResponse where
  value : Int

def CountResponse.to_proto (self : CountResponse) : Except Raised Proto :=
  construct .countResponse [("value",.int self.value)]

def CountResponse.from_proto (pb_message : Proto) : CountResponse where
  value := pb_message.int "value"

structure GetRequest where
  key : Bytes

def GetRequest.to_proto (self : GetRequest) : Except Raised Proto :=
  construct .getRequest [("key",.bytes self.key)]

def GetRequest.from_proto (pb_message : Proto) : GetRequest where
  key := pb_message.bytes "key"

structure GetResponse where
  key : Bytes
  value : Bytes
  exists_ : Bool

def GetResponse.to_proto (self : GetResponse) : Except Raised Proto :=
  construct .getResponse [("key",.bytes self.key),("value",.bytes self.value),("exists",.bool self.exists_)]

def GetResponse.from_proto (pb_message : Proto) : GetResponse where
  key := pb_message.bytes "key"
  value := pb_message.bytes "value"
  exists_ := pb_message.bool "exists"

structure PutRequest where
  key : Bytes
  value : Bytes

def PutRequest.to_proto (self : PutRequest) : Except Raised Proto :=
  construct .putRequest [("key",.bytes self.key),("value",.bytes self.value)]

def PutRequest.from_proto (pb_message : Proto) : PutRequest where
  key := pb_message.bytes "key"
  value := pb_message.bytes "value"

structure PutResponse where
  key : Bytes
  value : Bytes
  success : Bool

def PutResponse.to_proto (self : PutResponse) : Except Raised Proto :=
  construct .putResponse [("key",.bytes self.key),("value",.bytes self.value),("success",.bool self.success)]

def PutResponse.from_proto (pb_message : Proto) : PutResponse where
  key := pb_message.bytes "key"
  value := pb_message.bytes "value"
  success := pb_message.bool "success"

structure GetAllRequest where
  limit : Int

def GetAllRequest.to_proto (self : GetAllRequest) : Except Raised Proto :=
  construct .getAllRequest [("limit",.int self.limit)]

def GetAllRequest.from_proto (pb_message : Proto) : GetAllRequest where
  limit := pb_message.int "limit"

structure DeleteRequest where
  key : Bytes

def DeleteRequest.to_proto (self : DeleteRequest) : Except Raised Proto :=
  construct .deleteRequest [("key",.bytes self.key)]

def DeleteRequest.from_proto (pb_message : Proto) : DeleteRequest where
  key := pb_message.bytes "key"

structure DeleteResponse where
  key : Bytes
  success : Bool

def DeleteResponse.to_proto (self : DeleteResponse) : Except Raised Proto :=
  construct .deleteResponse [("key",.bytes self.key),("success",.bool self.success)]

def DeleteResponse.from_proto (pb_message : Proto) : DeleteResponse where
  key := pb_message.bytes "key"
  success := pb_message.bool "success"

structure MapPartitionsWithIndexRequest where
  shuffle : Bool

def MapPartitionsWithIndexRequest.to_proto (self : MapPartitionsWithIndexRequest) : Except Raised Proto :=
  construct .mapPartitionsWithIndexRequest [("shuffle",.bool self.shuffle)]

def MapPartitionsWithIndexRequest.from_proto (pb_message : Proto) : MapPartitionsWithIndexRequest where
  shuffle := pb_message.bool "shuffle"

structure ReduceResponse where
  id : Int
  value : Bytes

def ReduceResponse.to_proto (self : ReduceResponse) : Except Raised Proto :=
  construct .reduceResponse [("id",.int self.id),("value",.bytes self.value)]

def ReduceResponse.from_proto (pb_message : Proto) : ReduceResponse where
  id := pb_message.int "id"
  value := pb_message.bytes "value"

structure AggregateRequest where
  zero_value : Bytes

def AggregateRequest.to_proto (self : AggregateRequest) : Except Raised Proto :=
  construct .aggregateRequest [("zero_value",.bytes self.zero_value)]

def AggregateRequest.from_proto (pb_message : Proto) : AggregateRequest where
  zero_value := pb_message.bytes "zero_value"

structure AggregateResponse where
  id : Int
  value : Bytes

def AggregateResponse.to_proto (self : AggregateResponse) : Except Raised Proto :=
  construct .aggregateResponse [("id",.int self.id),("value",.bytes self.value)]

def AggregateResponse.from_proto (pb_message : Proto) : AggregateResponse where
  id := pb_message.int "id"
  value := pb_message.bytes "value"

structure WithStoresResponse where
  id : Int
  value : Bytes

def WithStoresResponse.to_proto (self : WithStoresResponse) : Except Raised Proto :=
  construct .withStoresResponse [("id",.int self.id),("value",.bytes self.value)]

def WithStoresResponse.from_proto (pb_message : Proto) : WithStoresResponse where
  id := pb_message.int "id"
  value := pb_message.bytes "value"

structure ErTransferHeader where
  id : Int
  tag : String
  total_size : Int
  status : String
  ext : Bytes

def ErTransferHeader.to_proto (self : ErTransferHeader) : Except Raised Proto :=
  construct .transferHeader [("id",.int self.id),("tag",.string self.tag),
    ("totalSize",.int self.total_size),("status",.string self.status),("ext",.bytes self.ext)]

def ErTransferHeader.from_proto (pb_message : Proto) : ErTransferHeader where
  id := pb_message.int "id"
  tag := pb_message.string "tag"
  total_size := pb_message.int "totalSize"
  status := pb_message.string "status"
  ext := pb_message.bytes "ext"

/-- `data` is `None` by default. -/
structure ErTransferBatch where
  header : ErTransferHeader
  batch_size : Int
  data : Option Bytes

def ErTransferBatch.to_proto (self : ErTransferBatch) : Except Raised Proto := do
  construct .transferBatch [("header",.message (← self.header.to_proto)),
    ("batchSize",.int self.batch_size),("data",(self.data.map Value.bytes).getD .unset)]

def ErTransferBatch.from_proto (pb_message : Proto) : ErTransferBatch where
  header := ErTransferHeader.from_proto (pb_message.message .transferHeader "header")
  batch_size := pb_message.int "batchSize"
  data := some (pb_message.bytes "data")

structure ErRollSiteHeader where
  roll_site_session_id : String
  name : String
  tag : String
  src_role : String
  src_party_id : String
  dst_role : String
  dst_party_id : String
  data_type : String
  options : StringMap
  total_partitions : Int
  partition_id : Int
  total_streams : Int
  total_batches : Int
  stream_seq : Int
  batch_seq : Int
  stage : String

namespace ErRollSiteHeader

def to_proto (self : ErRollSiteHeader) : Except Raised Proto :=
  construct .rollSiteHeader [("rollSiteSessionId",.string self.roll_site_session_id),
    ("name",.string self.name),("tag",.string self.tag),("srcRole",.string self.src_role),
    ("srcPartyId",.string self.src_party_id),("dstRole",.string self.dst_role),
    ("dstPartyId",.string self.dst_party_id),("dataType",.string self.data_type),
    ("options",.stringMap (_stringify_dict self.options)),
    ("totalPartitions",.int self.total_partitions),("partitionId",.int self.partition_id),
    ("totalStreams",.int self.total_streams),("totalBatches",.int self.total_batches),
    ("streamSeq",.int self.stream_seq),("batchSeq",.int self.batch_seq),("stage",.string self.stage)]

def from_proto (pb_message : Proto) : ErRollSiteHeader where
  roll_site_session_id := pb_message.string "rollSiteSessionId"
  name := pb_message.string "name"
  tag := pb_message.string "tag"
  src_role := pb_message.string "srcRole"
  src_party_id := pb_message.string "srcPartyId"
  dst_role := pb_message.string "dstRole"
  dst_party_id := pb_message.string "dstPartyId"
  data_type := pb_message.string "dataType"
  options := pb_message.stringMap "options"
  total_partitions := pb_message.int "totalPartitions"
  partition_id := pb_message.int "partitionId"
  total_streams := pb_message.int "totalStreams"
  total_batches := pb_message.int "totalBatches"
  stream_seq := pb_message.int "streamSeq"
  batch_seq := pb_message.int "batchSeq"
  stage := pb_message.string "stage"

end ErRollSiteHeader

structure ErRollSitePullGetHeaderRequest where
  tag : String
  timeout : UInt64

def ErRollSitePullGetHeaderRequest.to_proto (self : ErRollSitePullGetHeaderRequest) : Except Raised Proto :=
  construct .rollSitePullGetHeaderRequest [("tag",.string self.tag),("timeout",.double self.timeout)]

def ErRollSitePullGetHeaderRequest.from_proto (pb_message : Proto) : ErRollSitePullGetHeaderRequest where
  tag := pb_message.string "tag"
  timeout := pb_message.double "timeout"

structure ErRollSitePullGetHeaderResponse where
  header : ErRollSiteHeader

def ErRollSitePullGetHeaderResponse.to_proto (self : ErRollSitePullGetHeaderResponse) :
    Except Raised Proto := do
  construct .rollSitePullGetHeaderResponse [("header",.message (← self.header.to_proto))]

def ErRollSitePullGetHeaderResponse.from_proto (pb_message : Proto) : ErRollSitePullGetHeaderResponse where
  header := ErRollSiteHeader.from_proto (pb_message.message .rollSiteHeader "header")

structure ErRollSitePullGetPartitionStatusRequest where
  tag : String
  timeout : UInt64

def ErRollSitePullGetPartitionStatusRequest.to_proto (self : ErRollSitePullGetPartitionStatusRequest) :
    Except Raised Proto :=
  construct .rollSitePullGetPartitionStatusRequest [("tag",.string self.tag),("timeout",.double self.timeout)]

def ErRollSitePullGetPartitionStatusRequest.from_proto (pb_message : Proto) :
    ErRollSitePullGetPartitionStatusRequest where
  tag := pb_message.string "tag"
  timeout := pb_message.double "timeout"

/-- A counter of the status response: the dict it is made with, or the container of pair
messages that a decoded message holds. -/
inductive Counter
  | dict (items : List (Int × Int))
  | repeated (pairs : List Proto)

def Counter.items : Counter → Except Raised (List (Int × Int))
  | .dict items => .ok items
  | .repeated _ => .error .attributeError

structure ErRollSitePullGetPartitionStatusResponse where
  partition_id : Int
  tag : String
  is_finished : Bool
  total_batches : Int
  batch_seq_to_pair_counter : Counter
  total_streams : Int
  stream_seq_to_pair_counter : Counter
  stream_seq_to_batch_seq : Counter
  total_pairs : Int
  data_type : String

namespace ErRollSitePullGetPartitionStatusResponse

/-- `add` on a repeated field of the status. -/
def add (item : Int × Int) : Except Raised Proto :=
  construct .intKeyIntValuePair [("key",.int item.1),("value",.int item.2)]

/-- The pairs are arguments of the status here; the source adds them to the message once
it is made. -/
def to_proto (self : ErRollSitePullGetPartitionStatusResponse) : Except Raised Proto := do
  let batch_pairs ← (← self.batch_seq_to_pair_counter.items).mapM add
  let stream_pairs ← (← self.stream_seq_to_pair_counter.items).mapM add
  let stream_batches ← (← self.stream_seq_to_batch_seq.items).mapM add
  let status ← construct .partitionStatus [("tag",.string self.tag),("is_finished",.bool self.is_finished),
    ("total_batches",.int self.total_batches),("total_streams",.int self.total_streams),
    ("total_pairs",.int self.total_pairs),("data_type",.string self.data_type),
    ("batch_seq_to_pair_counter",.repeated batch_pairs),
    ("stream_seq_to_pair_counter",.repeated stream_pairs),
    ("stream_seq_to_batch_seq",.repeated stream_batches)]
  construct .rollSitePullGetPartitionStatusResponse [("partition_id",.int self.partition_id),
    ("status",.message status)]

def from_proto (pb_message : Proto) : ErRollSitePullGetPartitionStatusResponse :=
  let status := pb_message.message .partitionStatus "status"
  { partition_id := pb_message.int "partition_id"
    tag := status.string "tag"
    is_finished := status.bool "is_finished"
    total_batches := status.int "total_batches"
    batch_seq_to_pair_counter := .repeated (status.repeated "batch_seq_to_pair_counter")
    total_streams := status.int "total_streams"
    stream_seq_to_pair_counter := .repeated (status.repeated "stream_seq_to_pair_counter")
    stream_seq_to_batch_seq := .repeated (status.repeated "stream_seq_to_batch_seq")
    total_pairs := status.int "total_pairs"
    data_type := status.string "data_type" }

end ErRollSitePullGetPartitionStatusResponse

structure ErRollSitePullClearStatusRequest where
  tag : String

def ErRollSitePullClearStatusRequest.to_proto (self : ErRollSitePullClearStatusRequest) : Except Raised Proto :=
  construct .rollSitePullClearStatusRequest [("tag",.string self.tag)]

def ErRollSitePullClearStatusRequest.from_proto (pb_message : Proto) : ErRollSitePullClearStatusRequest where
  tag := pb_message.string "tag"

structure ErRollSitePullClearStatusResponse where

def ErRollSitePullClearStatusResponse.to_proto (_ : ErRollSitePullClearStatusResponse) : Except Raised Proto :=
  construct .rollSitePullClearStatusResponse []

def ErRollSitePullClearStatusResponse.from_proto (_ : Proto) : ErRollSitePullClearStatusResponse where

/-- A value of one of the classes that define both `to_proto_string` and
`from_proto_string`. -/
inductive RpcMessage
  | endpoint (self : ErEndpoint)
  | serverNode (self : ErServerNode)
  | processor (self : ErProcessor)
  | processorBatch (self : ErProcessorBatch)
  | pair (self : ErPair)
  | pairBatch (self : ErPairBatch)
  | store (self : ErStore)
  | partitioner (self : ErPartitioner)
  | serdes (self : ErSerdes)
  | jobIo (self : ErJobIo)
  | job (self : ErJob)
  | task (self : ErTask)
  | sessionMeta (self : ErSessionMeta)
  | countResponse (self : CountResponse)
  | getRequest (self : GetRequest)
  | getResponse (self : GetResponse)
  | putRequest (self : PutRequest)
  | putResponse (self : PutResponse)
  | getAllRequest (self : GetAllRequest)
  | deleteRequest (self : DeleteRequest)
  | deleteResponse (self : DeleteResponse)
  | mapPartitionsWithIndexRequest (self : MapPartitionsWithIndexRequest)
  | reduceResponse (self : ReduceResponse)
  | aggregateRequest (self : AggregateRequest)
  | aggregateResponse (self : AggregateResponse)
  | withStoresResponse (self : WithStoresResponse)
  | transferBatch (self : ErTransferBatch)
  | rollSiteHeader (self : ErRollSiteHeader)
  | rollSitePullGetHeaderRequest (self : ErRollSitePullGetHeaderRequest)
  | rollSitePullGetHeaderResponse (self : ErRollSitePullGetHeaderResponse)
  | rollSitePullGetPartitionStatusRequest (self : ErRollSitePullGetPartitionStatusRequest)
  | rollSitePullGetPartitionStatusResponse (self : ErRollSitePullGetPartitionStatusResponse)
  | rollSitePullClearStatusRequest (self : ErRollSitePullClearStatusRequest)
  | rollSitePullClearStatusResponse (self : ErRollSitePullClearStatusResponse)

/-- The classes themselves, each under the name of its message. -/
inductive RpcClass
  | endpoint | serverNode | processor | processorBatch | pair | pairBatch | store | partitioner | serdes | jobIo
  | job | task | sessionMeta | countResponse | getRequest | getResponse | putRequest | putResponse
  | getAllRequest | deleteRequest | deleteResponse | mapPartitionsWithIndexRequest | reduceResponse
  | aggregateRequest | aggregateResponse | withStoresResponse | transferBatch | rollSiteHeader
  | rollSitePullGetHeaderRequest | rollSitePullGetHeaderResponse
  | rollSitePullGetPartitionStatusRequest | rollSitePullGetPartitionStatusResponse
  | rollSitePullClearStatusRequest | rollSitePullClearStatusResponse
deriving DecidableEq

def RpcMessage.rpc_class : RpcMessage → RpcClass
  | .endpoint _ => .endpoint
  | .serverNode _ => .serverNode
  | .processor _ => .processor
  | .processorBatch _ => .processorBatch
  | .pair _ => .pair
  | .pairBatch _ => .pairBatch
  | .store _ => .store
  | .partitioner _ => .partitioner
  | .serdes _ => .serdes
  | .jobIo _ => .jobIo
  | .job _ => .job
  | .task _ => .task
  | .sessionMeta _ => .sessionMeta
  | .countResponse _ => .countResponse
  | .getRequest _ => .getRequest
  | .getResponse _ => .getResponse
  | .putRequest _ => .putRequest
  | .putResponse _ => .putResponse
  | .getAllRequest _ => .getAllRequest
  | .deleteRequest _ => .deleteRequest
  | .deleteResponse _ => .deleteResponse
  | .mapPartitionsWithIndexRequest _ => .mapPartitionsWithIndexRequest
  | .reduceResponse _ => .reduceResponse
  | .aggregateRequest _ => .aggregateRequest
  | .aggregateResponse _ => .aggregateResponse
  | .withStoresResponse _ => .withStoresResponse
  | .transferBatch _ => .transferBatch
  | .rollSiteHeader _ => .rollSiteHeader
  | .rollSitePullGetHeaderRequest _ => .rollSitePullGetHeaderRequest
  | .rollSitePullGetHeaderResponse _ => .rollSitePullGetHeaderResponse
  | .rollSitePullGetPartitionStatusRequest _ => .rollSitePullGetPartitionStatusRequest
  | .rollSitePullGetPartitionStatusResponse _ => .rollSitePullGetPartitionStatusResponse
  | .rollSitePullClearStatusRequest _ => .rollSitePullClearStatusRequest
  | .rollSitePullClearStatusResponse _ => .rollSitePullClearStatusResponse

def RpcMessage.to_proto : RpcMessage → Except Raised Proto
  | .endpoint self => self.to_proto
  | .serverNode self => self.to_proto
  | .processor self => self.to_proto
  | .processorBatch self => self.to_proto
  | .pair self => self.to_proto
  | .pairBatch self => self.to_proto
  | .store self => self.to_proto
  | .partitioner self => self.to_proto
  | .serdes self => self.to_proto
  | .jobIo self => self.to_proto
  | .job self => self.to_proto
  | .task self => self.to_proto
  | .sessionMeta self => self.to_proto
  | .countResponse self => self.to_proto
  | .getRequest self => self.to_proto
  | .getResponse self => self.to_proto
  | .putRequest self => self.to_proto
  | .putResponse self => self.to_proto
  | .getAllRequest self => self.to_proto
  | .deleteRequest self => self.to_proto
  | .deleteResponse self => self.to_proto
  | .mapPartitionsWithIndexRequest self => self.to_proto
  | .reduceResponse self => self.to_proto
  | .aggregateRequest self => self.to_proto
  | .aggregateResponse self => self.to_proto
  | .withStoresResponse self => self.to_proto
  | .transferBatch self => self.to_proto
  | .rollSiteHeader self => self.to_proto
  | .rollSitePullGetHeaderRequest self => self.to_proto
  | .rollSitePullGetHeaderResponse self => self.to_proto
  | .rollSitePullGetPartitionStatusRequest self => self.to_proto
  | .rollSitePullGetPartitionStatusResponse self => self.to_proto
  | .rollSitePullClearStatusRequest self => self.to_proto
  | .rollSitePullClearStatusResponse self => self.to_proto

/-- The message that `from_proto_string` of the class parses. -/
def RpcClass.pb_message : RpcClass → MessageType
  | .endpoint => .endpoint
  | .serverNode => .serverNode
  | .processor => .processor
  | .processorBatch => .processorBatch
  | .pair => .pair
  | .pairBatch => .pairBatch
  | .store => .store
  | .partitioner => .partitioner
  | .serdes => .serdes
  | .jobIo => .jobIo
  | .job => .job
  | .task => .task
  | .sessionMeta => .sessionMeta
  | .countResponse => .countResponse
  | .getRequest => .getRequest
  | .getResponse => .getResponse
  | .putRequest => .putRequest
  | .putResponse => .putResponse
  | .getAllRequest => .getAllRequest
  | .deleteRequest => .deleteRequest
  | .deleteResponse => .deleteResponse
  | .mapPartitionsWithIndexRequest => .mapPartitionsWithIndexRequest
  | .reduceResponse => .reduceResponse
  | .aggregateRequest => .aggregateRequest
  | .aggregateResponse => .aggregateResponse
  | .withStoresResponse => .withStoresResponse
  | .transferBatch => .transferBatch
  | .rollSiteHeader => .rollSiteHeader
  | .rollSitePullGetHeaderRequest => .rollSitePullGetHeaderRequest
  | .rollSitePullGetHeaderResponse => .rollSitePullGetHeaderResponse
  | .rollSitePullGetPartitionStatusRequest => .rollSitePullGetPartitionStatusRequest
  | .rollSitePullGetPartitionStatusResponse => .rollSitePullGetPartitionStatusResponse
  | .rollSitePullClearStatusRequest => .rollSitePullGetPartitionStatusRequest
  | .rollSitePullClearStatusResponse => .rollSitePullClearStatusResponse

/-- The `from_proto` that `from_proto_string` of the class calls. -/
def RpcClass.from_proto (pb_message : Proto) : RpcClass → RpcMessage
  | .endpoint => .endpoint (ErEndpoint.from_proto pb_message)
  | .serverNode => .serverNode (ErServerNode.from_proto pb_message)
  | .processor => .processor (ErProcessor.from_proto pb_message)
  | .processorBatch => .processorBatch (ErProcessorBatch.from_proto pb_message)
  | .pair => .pair (ErPair.from_proto pb_message)
  | .pairBatch => .pairBatch (ErPairBatch.from_proto pb_message)
  | .store => .store (ErStore.from_proto pb_message)
  | .partitioner => .partitioner (ErPartitioner.from_proto pb_message)
  | .serdes => .partitioner (ErPartitioner.from_proto pb_message)
  | .jobIo => .jobIo (ErJobIo.from_proto pb_message)
  | .job => .job (ErJob.from_proto pb_message)
  | .task => .task (ErTask.from_proto pb_message)
  | .sessionMeta => .sessionMeta (ErSessionMeta.from_proto pb_message)
  | .countResponse => .countResponse (CountResponse.from_proto pb_message)
  | .getRequest => .getRequest (GetRequest.from_proto pb_message)
  | .getResponse => .getResponse (GetResponse.from_proto pb_message)
  | .putRequest => .putRequest (PutRequest.from_proto pb_message)
  | .putResponse => .putResponse (PutResponse.from_proto pb_message)
  | .getAllRequest => .getAllRequest (GetAllRequest.from_proto pb_message)
  | .deleteRequest => .deleteRequest (DeleteRequest.from_proto pb_message)
  | .deleteResponse => .deleteResponse (DeleteResponse.from_proto pb_message)
  | .mapPartitionsWithIndexRequest =>
    .mapPartitionsWithIndexRequest (MapPartitionsWithIndexRequest.from_proto pb_message)
  | .reduceResponse => .reduceResponse (ReduceResponse.from_proto pb_message)
  | .aggregateRequest => .aggregateRequest (AggregateRequest.from_proto pb_message)
  | .aggregateResponse => .aggregateResponse (AggregateResponse.from_proto pb_message)
  | .withStoresResponse => .withStoresResponse (WithStoresResponse.from_proto pb_message)
  | .transferBatch => .transferBatch (ErTransferBatch.from_proto pb_message)
  | .rollSiteHeader => .rollSiteHeader (ErRollSiteHeader.from_proto pb_message)
  | .rollSitePullGetHeaderRequest =>
    .rollSitePullGetHeaderRequest (ErRollSitePullGetHeaderRequest.from_proto pb_message)
  | .rollSitePullGetHeaderResponse =>
    .rollSitePullGetHeaderResponse (ErRollSitePullGetHeaderResponse.from_proto pb_message)
  | .rollSitePullGetPartitionStatusRequest =>
    .rollSitePullGetPartitionStatusRequest (ErRollSitePullGetPartitionStatusRequest.from_proto pb_message)
  | .rollSitePullGetPartitionStatusResponse =>
    .rollSitePullGetPartitionStatusResponse (ErRollSitePullGetPartitionStatusResponse.from_proto pb_message)
  | .rollSitePullClearStatusRequest =>
    .rollSitePullGetPartitionStatusRequest (ErRollSitePullGetPartitionStatusRequest.from_proto pb_message)
  | .rollSitePullClearStatusResponse =>
    .rollSitePullClearStatusResponse (ErRollSitePullClearStatusResponse.from_proto pb_message)

section Runtime
variable {Wire : Type} (runtime : Runtime MessageType Wire)

def RpcMessage.to_proto_string (self : RpcMessage) : Except Raised Wire := do
  return runtime.serializeToString (← self.to_proto)

def RpcClass.from_proto_string (cls : RpcClass) (pb_string : Wire) : Except Raised RpcMessage := do
  let pb_message ← runtime.parseFromString cls.pb_message pb_string
  return cls.from_proto pb_message

end Runtime

end Eggroll.MetaModel
