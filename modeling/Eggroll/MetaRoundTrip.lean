import Eggroll.TransferModel

/-! The wire round trip of the meta model: `from_proto_string` of each class on what its
`to_proto_string` wrote. Each class's pair of conversions is shown to convey its values;
three classes are decoded as something else. -/
namespace Eggroll.MetaModel
open Library Library.Protobuf

@[simp] theorem schema_fields (type : MessageType) : Schema.fields type = type.fields := rfl

attribute [simp] MessageType.fields

private theorem _stringify_dict_eq (dict : StringMap) : _stringify_dict dict = dict := by
  apply Std.ExtTreeMap.ext_getElem?
  intro key
  simp only [_stringify_dict,_stringify,Prod.mk.eta,List.map_id_fun',id_eq]
  cases found : dict[key]? with
  | none =>
    apply Std.ExtTreeMap.getElem?_ofList_of_contains_eq_false
    simpa using found
  | some value =>
    have member := Std.ExtTreeMap.mem_toList_iff_getElem?_eq_some.mpr found
    exact Std.ExtTreeMap.getElem?_ofList_of_mem Std.ReflCmp.compare_self
      Std.ExtTreeMap.distinct_keys_toList member

section Parts
variable {α : Type} {write : α → Except Raised Proto} {argument : Argument}

private theorem _to_proto_ok {value : α} : _to_proto write (some value) = .ok argument ↔
    ∃ message, write value = .ok message ∧ .message message = argument := by
  rw [_to_proto,sequence_ok]
  simp [pure,Except.pure]

private theorem _elements_to_proto_ok {values : List α} : _elements_to_proto write values = .ok argument ↔
    ∃ messages, values.mapM write = .ok messages ∧ .repeated messages = argument := by
  rw [_elements_to_proto,sequence_ok]
  simp [pure,Except.pure]

end Parts

namespace ErEndpoint

def Fits (self : ErEndpoint) : Prop := InInt32 self.port

theorem conveys (self : ErEndpoint) : Conveys .endpoint to_proto from_proto Fits self :=
  .scalar _ rfl (by simp [checked,Fits,List.lookup_cons]) rfl

end ErEndpoint

namespace ErServerNode

def Present (self : ErServerNode) : Prop := self.endpoint.isSome

def Fits (self : ErServerNode) : Prop :=
  InInt64 self.id ∧ InInt64 self.cluster_id ∧ ∀ endpoint ∈ self.endpoint, endpoint.Fits

theorem conveys (self : ErServerNode) (present : self.Present) :
    Conveys .serverNode to_proto from_proto Fits self := by
  obtain ⟨id,name,cluster_id,endpoint,node_type,status⟩ := self
  obtain ⟨endpoint,rfl⟩ := Option.isSome_iff_exists.mp present
  apply Conveys.nested
  · intro message wrote
    obtain ⟨_,written,wrote⟩ := sequence_ok.mp wrote
    obtain ⟨inner,written,rfl⟩ := _to_proto_ok.mp written
    have passed := (construct_ok.mp wrote).1
    simp [checked,List.lookup_cons] at passed
    simp [Fits,passed,endpoint.conveys.fit _ ‹_›]
  · intro fits
    obtain ⟨id_fits,cluster_fits,endpoint_fits⟩ := fits
    obtain ⟨_,inner,made,wrote,restored⟩ := endpoint.conveys.wrote (endpoint_fits _ rfl)
    refine ⟨_,by rw [to_proto,_to_proto_ok.mpr ⟨_,wrote,rfl⟩]; rfl,?_,?_⟩
    · simp [checked,List.lookup_cons,id_fits,cluster_fits,construct_type made]
    · simp only [← restored]
      rfl

end ErServerNode

namespace ErProcessor

def Present (self : ErProcessor) : Prop := self.command_endpoint.isSome ∧ self.transfer_endpoint.isSome

def Fits (self : ErProcessor) : Prop :=
  InInt64 self.id ∧ InInt64 self.server_node_id ∧ InInt32 self.pid ∧
    (∀ endpoint ∈ self.command_endpoint, endpoint.Fits) ∧ ∀ endpoint ∈ self.transfer_endpoint, endpoint.Fits

theorem conveys (self : ErProcessor) (present : self.Present) :
    Conveys .processor to_proto from_proto Fits self := by
  obtain ⟨id,server_node_id,name,processor_type,status,command,transfer,pid,options,tag⟩ := self
  obtain ⟨command,rfl⟩ := Option.isSome_iff_exists.mp present.1
  obtain ⟨transfer,rfl⟩ := Option.isSome_iff_exists.mp present.2
  apply Conveys.nested
  · intro message wrote
    simp only [to_proto,notNone,sequence_ok] at wrote
    obtain ⟨_,⟨⟩,_,wrote_command,_,⟨⟩,_,wrote_transfer,wrote⟩ := wrote
    have passed := (construct_ok.mp wrote).1
    simp [checked,List.lookup_cons] at passed
    simp [Fits,passed,command.conveys.fit _ wrote_command,transfer.conveys.fit _ wrote_transfer]
  · intro fits
    obtain ⟨id_fits,node_fits,pid_fits,command_fits,transfer_fits⟩ := fits
    obtain ⟨_,_,command_made,command_wrote,command_restored⟩ := command.conveys.wrote (command_fits _ rfl)
    obtain ⟨_,_,transfer_made,transfer_wrote,transfer_restored⟩ :=
      transfer.conveys.wrote (transfer_fits _ rfl)
    refine ⟨_,by simp only [to_proto,notNone,bind,Except.bind,command_wrote,transfer_wrote]; rfl,?_,?_⟩
    · simp [checked,List.lookup_cons,id_fits,node_fits,pid_fits,construct_type command_made,
        construct_type transfer_made]
    · simp only [← command_restored,← transfer_restored,_stringify_dict_eq]
      rfl

end ErProcessor

namespace ErProcessorBatch

def Present (self : ErProcessorBatch) : Prop := ∀ processor ∈ self.processors, processor.Present

def Fits (self : ErProcessorBatch) : Prop := InInt64 self.id ∧ ∀ processor ∈ self.processors, processor.Fits

theorem conveys (self : ErProcessorBatch) (present : self.Present) :
    Conveys .processorBatch to_proto from_proto Fits self := by
  obtain ⟨id,name,processors,tag⟩ := self
  have each := fun processor (member : processor ∈ processors) => processor.conveys (present _ member)
  apply Conveys.nested
  · intro message wrote
    simp only [to_proto,sequence_ok,_elements_to_proto_ok] at wrote
    obtain ⟨_,⟨_,wrote_processors,rfl⟩,wrote⟩ := wrote
    have passed := (construct_ok.mp wrote).1
    simp [checked,List.lookup_cons] at passed
    exact ⟨passed.1,Conveys.fit_list each wrote_processors⟩
  · intro fits
    obtain ⟨id_fits,processor_fits⟩ := fits
    obtain ⟨_,wrote,made,restored⟩ := Conveys.wrote_list each processor_fits
    refine ⟨_,by rw [to_proto,_elements_to_proto_ok.mpr ⟨_,wrote,rfl⟩]; rfl,?_,?_⟩
    · simpa [checked,List.lookup_cons,id_fits] using made
    · simp only [← restored]
      rfl

end ErProcessorBatch

theorem ErFunctor.conveys (self : ErFunctor) : Conveys .functor to_proto from_proto (fun _ => True) self :=
  .scalar _ rfl (by simp [checked,List.lookup_cons])
    (congrArg (fun options => { self with options := options }) (_stringify_dict_eq self.options))

theorem ErPair.conveys (self : ErPair) : Conveys .pair to_proto from_proto (fun _ => True) self :=
  .scalar _ rfl (by simp [checked,List.lookup_cons]) rfl

theorem ErPairBatch.conveys (self : ErPairBatch) :
    Conveys .pairBatch to_proto from_proto (fun _ => True) self := by
  obtain ⟨pairs⟩ := self
  apply Conveys.nested
  · intro _ _
    trivial
  · intro _
    obtain ⟨_,wrote,made,restored⟩ :=
      Conveys.wrote_list (fun pair (_ : pair ∈ pairs) => pair.conveys) fun _ _ => trivial
    refine ⟨_,by rw [to_proto,_elements_to_proto_ok.mpr ⟨_,wrote,rfl⟩]; rfl,?_,?_⟩
    · simpa [checked,List.lookup_cons] using made
    · exact congrArg ErPairBatch.mk restored

namespace ErStoreLocator

def Fits (self : ErStoreLocator) : Prop :=
  InInt64 self.id ∧ InInt32 self.total_partitions ∧ InInt32 self.key_serdes_type ∧
    InInt32 self.value_serdes_type ∧ InInt32 self.partitioner_type

theorem conveys (self : ErStoreLocator) : Conveys .storeLocator to_proto from_proto Fits self :=
  .scalar _ rfl (by simp [checked,Fits,List.lookup_cons]) rfl

end ErStoreLocator

namespace ErPartition

def Present (self : ErPartition) : Prop :=
  self.store_locator.isSome ∧ self.processor.isSome ∧ ∀ processor ∈ self.processor, processor.Present

def Fits (self : ErPartition) : Prop :=
  InInt32 self.id ∧ InInt32 self.rank_in_node ∧ (∀ locator ∈ self.store_locator, locator.Fits) ∧
    ∀ processor ∈ self.processor, processor.Fits

theorem conveys (self : ErPartition) (present : self.Present) :
    Conveys .partition to_proto from_proto Fits self := by
  obtain ⟨id,locator,processor,rank⟩ := self
  obtain ⟨hasLocator,hasProcessor,present⟩ := present
  obtain ⟨locator,rfl⟩ := Option.isSome_iff_exists.mp hasLocator
  obtain ⟨processor,rfl⟩ := Option.isSome_iff_exists.mp hasProcessor
  have conveyed := processor.conveys (present _ rfl)
  apply Conveys.nested
  · intro message wrote
    simp only [to_proto,sequence_ok,_to_proto_ok] at wrote
    obtain ⟨_,⟨_,wrote_locator,rfl⟩,_,⟨_,wrote_processor,rfl⟩,wrote⟩ := wrote
    have passed := (construct_ok.mp wrote).1
    simp [checked,List.lookup_cons] at passed
    simp [Fits,passed,locator.conveys.fit _ wrote_locator,conveyed.fit _ wrote_processor]
  · intro fits
    obtain ⟨id_fits,rank_fits,locator_fits,processor_fits⟩ := fits
    obtain ⟨_,_,locator_made,locator_wrote,locator_restored⟩ := locator.conveys.wrote (locator_fits _ rfl)
    obtain ⟨_,_,processor_made,processor_wrote,processor_restored⟩ := conveyed.wrote (processor_fits _ rfl)
    refine ⟨_,by rw [to_proto,_to_proto_ok.mpr ⟨_,locator_wrote,rfl⟩,
      _to_proto_ok.mpr ⟨_,processor_wrote,rfl⟩]; rfl,?_,?_⟩
    · simp [checked,List.lookup_cons,id_fits,rank_fits,construct_type locator_made,construct_type processor_made]
    · simp only [← locator_restored,← processor_restored]
      rfl

end ErPartition

namespace ErStore

def Present (self : ErStore) : Prop := ∀ partition ∈ self.partitions, partition.Present

def Fits (self : ErStore) : Prop :=
  self.store_locator.Fits ∧ ∀ partition ∈ self.partitions, partition.Fits

theorem conveys (self : ErStore) (present : self.Present) : Conveys .store to_proto from_proto Fits self := by
  obtain ⟨locator,partitions,options⟩ := self
  have each := fun partition (member : partition ∈ partitions) => partition.conveys (present _ member)
  apply Conveys.nested
  · intro message wrote
    simp only [to_proto,sequence_ok,_elements_to_proto_ok] at wrote
    obtain ⟨_,wrote_locator,_,⟨_,wrote_partitions,rfl⟩,-⟩ := wrote
    exact ⟨locator.conveys.fit _ wrote_locator,Conveys.fit_list each wrote_partitions⟩
  · intro fits
    obtain ⟨locator_fits,partition_fits⟩ := fits
    obtain ⟨_,_,locator_made,locator_wrote,locator_restored⟩ := locator.conveys.wrote locator_fits
    obtain ⟨_,wrote,made,restored⟩ := Conveys.wrote_list each partition_fits
    refine ⟨_,by rw [to_proto,locator_wrote,_elements_to_proto_ok.mpr ⟨_,wrote,rfl⟩]; rfl,?_,?_⟩
    · simpa [checked,List.lookup_cons,construct_type locator_made] using made
    · simp only [← locator_restored,← restored,_stringify_dict_eq]
      rfl

end ErStore

namespace ErPartitioner

def Fits (self : ErPartitioner) : Prop := InInt32 self.type

theorem conveys (self : ErPartitioner) : Conveys .partitioner to_proto from_proto Fits self :=
  .scalar _ rfl (by simp [checked,Fits,List.lookup_cons]) rfl

end ErPartitioner

namespace ErSerdes

def Fits (self : ErSerdes) : Prop := InInt32 self.type

theorem conveys (self : ErSerdes) : Conveys .serdes to_proto from_proto Fits self :=
  .scalar _ rfl (by simp [checked,Fits,List.lookup_cons]) rfl

end ErSerdes

namespace ErJobIo

def Present (self : ErJobIo) : Prop :=
  self.store.Present ∧ self.key_serdes.isSome ∧ self.value_serdes.isSome ∧ self.partitioner.isSome

def Fits (self : ErJobIo) : Prop :=
  self.store.Fits ∧ (∀ serdes ∈ self.key_serdes, serdes.Fits) ∧
    (∀ serdes ∈ self.value_serdes, serdes.Fits) ∧ ∀ partitioner ∈ self.partitioner, partitioner.Fits

theorem conveys (self : ErJobIo) (present : self.Present) : Conveys .jobIo to_proto from_proto Fits self := by
  obtain ⟨store,key,value,partitioner⟩ := self
  obtain ⟨present,hasKey,hasValue,hasPartitioner⟩ := present
  obtain ⟨key,rfl⟩ := Option.isSome_iff_exists.mp hasKey
  obtain ⟨value,rfl⟩ := Option.isSome_iff_exists.mp hasValue
  obtain ⟨partitioner,rfl⟩ := Option.isSome_iff_exists.mp hasPartitioner
  have conveyed := store.conveys present
  apply Conveys.nested
  · intro message wrote
    simp only [to_proto,sequence_ok,_to_proto_ok] at wrote
    obtain ⟨_,wrote_store,_,⟨_,wrote_key,rfl⟩,_,⟨_,wrote_value,rfl⟩,_,⟨_,wrote_partitioner,rfl⟩,-⟩ := wrote
    simp [Fits,conveyed.fit _ wrote_store,key.conveys.fit _ wrote_key,value.conveys.fit _ wrote_value,
      partitioner.conveys.fit _ wrote_partitioner]
  · intro fits
    obtain ⟨store_fits,key_fits,value_fits,partitioner_fits⟩ := fits
    obtain ⟨_,_,store_made,store_wrote,store_restored⟩ := conveyed.wrote store_fits
    obtain ⟨_,_,key_made,key_wrote,key_restored⟩ := key.conveys.wrote (key_fits _ rfl)
    obtain ⟨_,_,value_made,value_wrote,value_restored⟩ := value.conveys.wrote (value_fits _ rfl)
    obtain ⟨_,_,partitioner_made,partitioner_wrote,partitioner_restored⟩ :=
      partitioner.conveys.wrote (partitioner_fits _ rfl)
    refine ⟨_,by rw [to_proto,store_wrote,_to_proto_ok.mpr ⟨_,key_wrote,rfl⟩,
      _to_proto_ok.mpr ⟨_,value_wrote,rfl⟩,_to_proto_ok.mpr ⟨_,partitioner_wrote,rfl⟩]; rfl,?_,?_⟩
    · simp [checked,List.lookup_cons,construct_type store_made,construct_type key_made,
        construct_type value_made,construct_type partitioner_made]
    · simp only [← store_restored,← key_restored,← value_restored,← partitioner_restored]
      rfl

end ErJobIo

namespace ErJob

def Present (self : ErJob) : Prop :=
  (∀ input ∈ self.inputs, input.Present) ∧ ∀ output ∈ self.outputs, output.Present

def Fits (self : ErJob) : Prop :=
  (∀ input ∈ self.inputs, input.Fits) ∧ ∀ output ∈ self.outputs, output.Fits

theorem conveys (self : ErJob) (present : self.Present) : Conveys .job to_proto from_proto Fits self := by
  obtain ⟨id,name,inputs,outputs,functors,options⟩ := self
  have eachInput := fun input (member : input ∈ inputs) => input.conveys (present.1 _ member)
  have eachOutput := fun output (member : output ∈ outputs) => output.conveys (present.2 _ member)
  apply Conveys.nested
  · intro message wrote
    simp only [to_proto,sequence_ok,_elements_to_proto_ok] at wrote
    obtain ⟨_,⟨_,wrote_inputs,rfl⟩,_,⟨_,wrote_outputs,rfl⟩,-⟩ := wrote
    exact ⟨Conveys.fit_list eachInput wrote_inputs,Conveys.fit_list eachOutput wrote_outputs⟩
  · intro fits
    obtain ⟨input_fits,output_fits⟩ := fits
    obtain ⟨_,inputs_wrote,inputs_made,inputs_restored⟩ := Conveys.wrote_list eachInput input_fits
    obtain ⟨_,outputs_wrote,outputs_made,outputs_restored⟩ := Conveys.wrote_list eachOutput output_fits
    obtain ⟨_,functors_wrote,functors_made,functors_restored⟩ :=
      Conveys.wrote_list (fun functor (_ : functor ∈ functors) => functor.conveys) fun _ _ => trivial
    refine ⟨_,by rw [to_proto,_elements_to_proto_ok.mpr ⟨_,inputs_wrote,rfl⟩,
      _elements_to_proto_ok.mpr ⟨_,outputs_wrote,rfl⟩,
      _elements_to_proto_ok.mpr ⟨_,functors_wrote,rfl⟩]; rfl,?_,?_⟩
    · simpa [checked,List.lookup_cons] using ⟨inputs_made,outputs_made,functors_made⟩
    · simp only [← inputs_restored,← outputs_restored,← functors_restored,_stringify_dict_eq]
      rfl

end ErJob

namespace ErTask

def Present (self : ErTask) : Prop :=
  (∀ input ∈ self.inputs, input.Present) ∧ (∀ output ∈ self.outputs, output.Present) ∧
    self.job.isSome ∧ ∀ job ∈ self.job, job.Present

def Fits (self : ErTask) : Prop :=
  (∀ input ∈ self.inputs, input.Fits) ∧ (∀ output ∈ self.outputs, output.Fits) ∧ ∀ job ∈ self.job, job.Fits

theorem conveys (self : ErTask) (present : self.Present) : Conveys .task to_proto from_proto Fits self := by
  obtain ⟨id,name,inputs,outputs,job⟩ := self
  obtain ⟨inputPresent,outputPresent,hasJob,present⟩ := present
  obtain ⟨job,rfl⟩ := Option.isSome_iff_exists.mp hasJob
  have eachInput := fun input (member : input ∈ inputs) => input.conveys (inputPresent _ member)
  have eachOutput := fun output (member : output ∈ outputs) => output.conveys (outputPresent _ member)
  have conveyed := job.conveys (present _ rfl)
  apply Conveys.nested
  · intro message wrote
    simp only [to_proto,sequence_ok,_elements_to_proto_ok,_to_proto_ok] at wrote
    obtain ⟨_,⟨_,wrote_inputs,rfl⟩,_,⟨_,wrote_outputs,rfl⟩,_,⟨_,wrote_job,rfl⟩,-⟩ := wrote
    refine ⟨Conveys.fit_list eachInput wrote_inputs,Conveys.fit_list eachOutput wrote_outputs,?_⟩
    rintro _ ⟨⟩
    exact conveyed.fit _ wrote_job
  · intro fits
    obtain ⟨input_fits,output_fits,job_fits⟩ := fits
    obtain ⟨_,inputs_wrote,inputs_made,inputs_restored⟩ := Conveys.wrote_list eachInput input_fits
    obtain ⟨_,outputs_wrote,outputs_made,outputs_restored⟩ := Conveys.wrote_list eachOutput output_fits
    obtain ⟨_,_,job_made,job_wrote,job_restored⟩ := conveyed.wrote (job_fits _ rfl)
    refine ⟨_,by rw [to_proto,_elements_to_proto_ok.mpr ⟨_,inputs_wrote,rfl⟩,
      _elements_to_proto_ok.mpr ⟨_,outputs_wrote,rfl⟩,_to_proto_ok.mpr ⟨_,job_wrote,rfl⟩]; rfl,?_,?_⟩
    · simpa [checked,List.lookup_cons,construct_type job_made] using ⟨inputs_made,outputs_made⟩
    · simp only [← inputs_restored,← outputs_restored,← job_restored]
      rfl

end ErTask

namespace ErSessionMeta

def Present (self : ErSessionMeta) : Prop := ∀ processor ∈ self.processors, processor.Present

def Fits (self : ErSessionMeta) : Prop := ∀ processor ∈ self.processors, processor.Fits

theorem conveys (self : ErSessionMeta) (present : self.Present) :
    Conveys .sessionMeta to_proto from_proto Fits self := by
  obtain ⟨id,name,status,tag,processors,options⟩ := self
  have each := fun processor (member : processor ∈ processors) => processor.conveys (present _ member)
  apply Conveys.nested
  · intro message wrote
    simp only [to_proto,sequence_ok,_elements_to_proto_ok] at wrote
    obtain ⟨_,⟨_,wrote_processors,rfl⟩,-⟩ := wrote
    exact Conveys.fit_list each wrote_processors
  · intro processor_fits
    obtain ⟨_,wrote,made,restored⟩ := Conveys.wrote_list each processor_fits
    refine ⟨_,by rw [to_proto,_elements_to_proto_ok.mpr ⟨_,wrote,rfl⟩]; rfl,?_,?_⟩
    · simpa [checked,List.lookup_cons] using made
    · simp only [← restored,_stringify_dict_eq]
      rfl

end ErSessionMeta

section Tasks

def CountResponse.Fits (self : CountResponse) : Prop := InInt64 self.value

theorem CountResponse.conveys (self : CountResponse) :
    Conveys .countResponse to_proto from_proto Fits self :=
  .scalar _ rfl (by simp [checked,Fits,List.lookup_cons]) rfl

theorem GetRequest.conveys (self : GetRequest) :
    Conveys .getRequest to_proto from_proto (fun _ => True) self :=
  .scalar _ rfl (by simp [checked,List.lookup_cons]) rfl

theorem GetResponse.conveys (self : GetResponse) :
    Conveys .getResponse to_proto from_proto (fun _ => True) self :=
  .scalar _ rfl (by simp [checked,List.lookup_cons]) rfl

theorem PutRequest.conveys (self : PutRequest) :
    Conveys .putRequest to_proto from_proto (fun _ => True) self :=
  .scalar _ rfl (by simp [checked,List.lookup_cons]) rfl

theorem PutResponse.conveys (self : PutResponse) :
    Conveys .putResponse to_proto from_proto (fun _ => True) self :=
  .scalar _ rfl (by simp [checked,List.lookup_cons]) rfl

def GetAllRequest.Fits (self : GetAllRequest) : Prop := InInt64 self.limit

theorem GetAllRequest.conveys (self : GetAllRequest) :
    Conveys .getAllRequest to_proto from_proto Fits self :=
  .scalar _ rfl (by simp [checked,Fits,List.lookup_cons]) rfl

theorem DeleteRequest.conveys (self : DeleteRequest) :
    Conveys .deleteRequest to_proto from_proto (fun _ => True) self :=
  .scalar _ rfl (by simp [checked,List.lookup_cons]) rfl

theorem DeleteResponse.conveys (self : DeleteResponse) :
    Conveys .deleteResponse to_proto from_proto (fun _ => True) self :=
  .scalar _ rfl (by simp [checked,List.lookup_cons]) rfl

theorem MapPartitionsWithIndexRequest.conveys (self : MapPartitionsWithIndexRequest) :
    Conveys .mapPartitionsWithIndexRequest to_proto from_proto (fun _ => True) self :=
  .scalar _ rfl (by simp [checked,List.lookup_cons]) rfl

def ReduceResponse.Fits (self : ReduceResponse) : Prop := InInt64 self.id

theorem ReduceResponse.conveys (self : ReduceResponse) :
    Conveys .reduceResponse to_proto from_proto Fits self :=
  .scalar _ rfl (by simp [checked,Fits,List.lookup_cons]) rfl

theorem AggregateRequest.conveys (self : AggregateRequest) :
    Conveys .aggregateRequest to_proto from_proto (fun _ => True) self :=
  .scalar _ rfl (by simp [checked,List.lookup_cons]) rfl

def AggregateResponse.Fits (self : AggregateResponse) : Prop := InInt64 self.id

theorem AggregateResponse.conveys (self : AggregateResponse) :
    Conveys .aggregateResponse to_proto from_proto Fits self :=
  .scalar _ rfl (by simp [checked,Fits,List.lookup_cons]) rfl

def WithStoresResponse.Fits (self : WithStoresResponse) : Prop := InInt64 self.id

theorem WithStoresResponse.conveys (self : WithStoresResponse) :
    Conveys .withStoresResponse to_proto from_proto Fits self :=
  .scalar _ rfl (by simp [checked,Fits,List.lookup_cons]) rfl

end Tasks

namespace ErTransferHeader

def Fits (self : ErTransferHeader) : Prop := InInt32 self.id ∧ InInt64 self.total_size

theorem conveys (self : ErTransferHeader) : Conveys .transferHeader to_proto from_proto Fits self :=
  .scalar _ rfl (by simp [checked,Fits,List.lookup_cons]) rfl

end ErTransferHeader

namespace ErTransferBatch

def Fits (self : ErTransferBatch) : Prop := self.header.Fits ∧ InInt64 self.batch_size

theorem conveys (self : ErTransferBatch) (present : self.data.isSome) :
    Conveys .transferBatch to_proto from_proto Fits self := by
  obtain ⟨header,batch_size,data⟩ := self
  obtain ⟨data,rfl⟩ := Option.isSome_iff_exists.mp present
  apply Conveys.nested
  · intro message wrote
    obtain ⟨_,wrote_header,wrote⟩ := sequence_ok.mp wrote
    have passed := (construct_ok.mp wrote).1
    simp [checked,List.lookup_cons] at passed
    exact ⟨header.conveys.fit _ wrote_header,passed.2⟩
  · intro fits
    obtain ⟨header_fits,size_fits⟩ := fits
    obtain ⟨_,_,made,wrote,restored⟩ := header.conveys.wrote header_fits
    refine ⟨_,by rw [to_proto,wrote]; rfl,?_,?_⟩
    · simp [checked,List.lookup_cons,size_fits,construct_type made]
    · simp only [← restored]
      rfl

end ErTransferBatch

namespace ErRollSiteHeader

def Fits (self : ErRollSiteHeader) : Prop :=
  InInt32 self.total_partitions ∧ InInt32 self.partition_id ∧ InInt64 self.total_streams ∧
    InInt64 self.total_batches ∧ InInt64 self.stream_seq ∧ InInt64 self.batch_seq

theorem conveys (self : ErRollSiteHeader) : Conveys .rollSiteHeader to_proto from_proto Fits self :=
  .scalar _ rfl (by simp [checked,Fits,List.lookup_cons])
    (congrArg (fun options => { self with options := options }) (_stringify_dict_eq self.options))

end ErRollSiteHeader

section RollSite

theorem ErRollSitePullGetHeaderRequest.conveys (self : ErRollSitePullGetHeaderRequest) :
    Conveys .rollSitePullGetHeaderRequest to_proto from_proto (fun _ => True) self :=
  .scalar _ rfl (by simp [checked,List.lookup_cons]) rfl

def ErRollSitePullGetHeaderResponse.Fits (self : ErRollSitePullGetHeaderResponse) : Prop := self.header.Fits

theorem ErRollSitePullGetHeaderResponse.conveys (self : ErRollSitePullGetHeaderResponse) :
    Conveys .rollSitePullGetHeaderResponse to_proto from_proto Fits self := by
  obtain ⟨header⟩ := self
  apply Conveys.nested
  · intro message wrote
    obtain ⟨_,wrote_header,-⟩ := sequence_ok.mp wrote
    exact header.conveys.fit _ wrote_header
  · intro header_fits
    obtain ⟨_,_,made,wrote,restored⟩ := header.conveys.wrote header_fits
    refine ⟨_,by rw [to_proto,wrote]; rfl,?_,?_⟩
    · simp [checked,List.lookup_cons,construct_type made]
    · simp only [← restored]
      rfl

theorem ErRollSitePullGetPartitionStatusRequest.conveys (self : ErRollSitePullGetPartitionStatusRequest) :
    Conveys .rollSitePullGetPartitionStatusRequest to_proto from_proto (fun _ => True) self :=
  .scalar _ rfl (by simp [checked,List.lookup_cons]) rfl

theorem ErRollSitePullClearStatusResponse.conveys (self : ErRollSitePullClearStatusResponse) :
    Conveys .rollSitePullClearStatusResponse to_proto from_proto (fun _ => True) self :=
  .scalar _ rfl (by simp [checked]) rfl

end RollSite

namespace RpcMessage

/-- The fields that hold messages are not `None`. -/
def Present : RpcMessage → Prop
  | .serverNode self => self.Present
  | .processor self => self.Present
  | .processorBatch self => self.Present
  | .store self => self.Present
  | .jobIo self => self.Present
  | .job self => self.Present
  | .task self => self.Present
  | .sessionMeta self => self.Present
  | _ => True

/-- Every integer lies in the range of the message field it is written to. -/
def Fits : RpcMessage → Prop
  | .endpoint self => self.Fits
  | .serverNode self => self.Fits
  | .processor self => self.Fits
  | .processorBatch self => self.Fits
  | .store self => self.Fits
  | .partitioner self => self.Fits
  | .serdes self => self.Fits
  | .jobIo self => self.Fits
  | .job self => self.Fits
  | .task self => self.Fits
  | .sessionMeta self => self.Fits
  | .countResponse self => self.Fits
  | .getAllRequest self => self.Fits
  | .reduceResponse self => self.Fits
  | .aggregateResponse self => self.Fits
  | .withStoresResponse self => self.Fits
  | .transferBatch self => self.Fits
  | .rollSiteHeader self => self.Fits
  | .rollSitePullGetHeaderResponse self => self.Fits
  | _ => True

/-- The values whose class decodes them as written: not the serdes, not the request and the
response of the two pull calls below, and no batch without data. -/
def Decoded : RpcMessage → Prop
  | .serdes _ => False
  | .rollSitePullClearStatusRequest _ => False
  | .rollSitePullGetPartitionStatusResponse _ => False
  | .transferBatch self => self.data.isSome
  | _ => True

/-- `from_proto_string(to_proto_string(x))` is a value of the class of `x` with its fields. -/
def RoundTrips {Wire : Type} (runtime : Runtime MessageType Wire) (self : RpcMessage) : Prop :=
  ∃ pb_string, self.to_proto_string runtime = .ok pb_string ∧
    self.rpc_class.from_proto_string runtime pb_string = .ok self

variable {Wire : Type} {runtime : Runtime MessageType Wire}

private theorem to_proto_string_ok {self : RpcMessage} {pb_string : Wire} :
    self.to_proto_string runtime = .ok pb_string ↔
      ∃ message, self.to_proto = .ok message ∧ runtime.serializeToString message = pb_string := by
  rw [to_proto_string,sequence_ok]
  simp [pure,Except.pure]

private theorem from_proto_string_ok {cls : RpcClass} {pb_string : Wire} {result : RpcMessage} :
    cls.from_proto_string runtime pb_string = .ok result ↔
      ∃ message, runtime.parseFromString cls.pb_message pb_string = .ok message ∧
        cls.from_proto message = result := by
  rw [RpcClass.from_proto_string,sequence_ok]
  simp [pure,Except.pure]

private theorem roundTrips_of_conveys (faithful : runtime.Faithful) {α : Type} {write : α → Except Raised Proto}
    {read : Proto → α} {fits : α → Prop} {value : α} {wrap : α → RpcMessage} {self : RpcMessage}
    (conveys : Conveys self.rpc_class.pb_message write read fits value) (wrote : self.to_proto = write value)
    (parsed : ∀ message, self.rpc_class.from_proto message = wrap (read message))
    (same : wrap value = self) (fitting : fits value ↔ self.Fits) (decoded : self.Decoded) :
    RoundTrips runtime self ↔ self.Fits ∧ self.Decoded := by
  rw [and_iff_left decoded,← fitting]
  constructor
  · intro trip
    obtain ⟨_,written,_⟩ := trip
    obtain ⟨message,written,-⟩ := to_proto_string_ok.mp written
    exact conveys.fit message (wrote.symm.trans written)
  · intro fit
    obtain ⟨arguments,message,made,written,restored⟩ := conveys.wrote fit
    refine ⟨_,to_proto_string_ok.mpr ⟨message,wrote.trans written,rfl⟩,?_⟩
    refine from_proto_string_ok.mpr ⟨message,faithful _ _ _ made,?_⟩
    rw [parsed,restored,same]

private theorem not_roundTrips {self : RpcMessage}
    (other : ∀ written, self.to_proto = .ok written → ∀ message, self.rpc_class.from_proto message ≠ self)
    (decoded : ¬ self.Decoded) : RoundTrips runtime self ↔ self.Fits ∧ self.Decoded := by
  refine iff_of_false ?_ fun both => decoded both.2
  intro trip
  obtain ⟨_,wrote,parsed⟩ := trip
  obtain ⟨written,wrote,-⟩ := to_proto_string_ok.mp wrote
  obtain ⟨message,-,same⟩ := from_proto_string_ok.mp parsed
  exact other written wrote message same

/-- Exactly which values of the meta model come back from the wire. -/
theorem meta_round_trip (faithful : runtime.Faithful) (self : RpcMessage) (present : self.Present) :
    RoundTrips runtime self ↔ self.Fits ∧ self.Decoded := by
  cases self with
  | serverNode self =>
    exact roundTrips_of_conveys faithful (self.conveys present) rfl (fun _ => rfl) rfl .rfl trivial
  | processor self =>
    exact roundTrips_of_conveys faithful (self.conveys present) rfl (fun _ => rfl) rfl .rfl trivial
  | processorBatch self =>
    exact roundTrips_of_conveys faithful (self.conveys present) rfl (fun _ => rfl) rfl .rfl trivial
  | store self =>
    exact roundTrips_of_conveys faithful (self.conveys present) rfl (fun _ => rfl) rfl .rfl trivial
  | serdes self =>
    -- the bytes are read back as an `ErPartitioner`
    exact not_roundTrips (fun _ _ _ => nofun) id
  | jobIo self =>
    exact roundTrips_of_conveys faithful (self.conveys present) rfl (fun _ => rfl) rfl .rfl trivial
  | job self =>
    exact roundTrips_of_conveys faithful (self.conveys present) rfl (fun _ => rfl) rfl .rfl trivial
  | task self =>
    exact roundTrips_of_conveys faithful (self.conveys present) rfl (fun _ => rfl) rfl .rfl trivial
  | sessionMeta self =>
    exact roundTrips_of_conveys faithful (self.conveys present) rfl (fun _ => rfl) rfl .rfl trivial
  | transferBatch self =>
    cases hasData : self.data with
    | some data =>
      have decoded : self.data.isSome := by rw [hasData]; rfl
      exact roundTrips_of_conveys faithful (self.conveys decoded) rfl (fun _ => rfl) rfl .rfl decoded
    | none =>
      -- an absent `data` is read back as empty bytes
      refine not_roundTrips (fun _ _ message same => ?_) (by simp [Decoded,hasData])
      have := congrArg ErTransferBatch.data (RpcMessage.transferBatch.inj same)
      rw [hasData] at this
      cases this
  | rollSitePullClearStatusRequest self =>
    -- the bytes are read as the request for a partition's status
    exact not_roundTrips (fun _ _ _ => nofun) id
  | rollSitePullGetPartitionStatusResponse self =>
    -- only a dict has `items`, and what is read back is never a dict
    refine not_roundTrips (fun written wrote message same => ?_) id
    obtain ⟨items,counted,-⟩ := sequence_ok.mp wrote
    have := congrArg (·.batch_seq_to_pair_counter)
      (RpcMessage.rollSitePullGetPartitionStatusResponse.inj same)
    rw [← this] at counted
    cases counted
  | _ self => exact roundTrips_of_conveys faithful self.conveys rfl (fun _ => rfl) rfl .rfl trivial

theorem server_node_round_trips :
    RoundTrips records (.serverNode ⟨1,"n",2,some ⟨"h",3⟩,"NODE_MANAGER","HEALTHY"⟩) := by
  have present : ErServerNode.Present ⟨1,"n",2,some ⟨"h",3⟩,"NODE_MANAGER","HEALTHY"⟩ := rfl
  refine (meta_round_trip records_faithful (.serverNode _) present).mpr ⟨⟨by decide,by decide,?_⟩,trivial⟩
  rintro _ ⟨⟩
  exact ⟨by decide,by decide⟩

/-- A serdes comes back as a partitioner with its type and body. -/
theorem serdes_not_round_trips : ¬ ∀ (Wire : Type) (runtime : Runtime MessageType Wire),
    runtime.Faithful → ∀ self : RpcMessage, self.Present → RoundTrips runtime self := by
  intro claimed
  obtain ⟨_,_,parsed⟩ := claimed _ records records_faithful (.serdes ⟨1,[]⟩) trivial
  obtain ⟨_,-,same⟩ := from_proto_string_ok.mp parsed
  cases same

end RpcMessage

end Eggroll.MetaModel
