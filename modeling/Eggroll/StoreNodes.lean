import Eggroll.Library.Failure
import Eggroll.StoreCrud

/-! The nodes of the partitions that `doGetStore` returns. Those that are not in the cache are
looked up together, and the call goes on as soon as one of them is found. -/
namespace Eggroll.StoreCrud
open Library
open Program hiding call

namespace Metadata

def among (healthy : List Int) : Service Metadata Op Ans Failure Env :=
  serve.restrict fun _ _ env => env.nodes = healthy

end Metadata

def ErStore.stored (query : ErStore) (s : Metadata) : Option StoreLocator :=
  (s.locators.filter fun row => row.nameSpace = query.storeLocator.nameSpace ∧ row.name = query.storeLocator.name ∧
    row.status = .NORMAL ∧ (if isBlank query.storeLocator.storeType then none
      else some query.storeLocator.storeType).all (· = row.storeType)).head?

def Metadata.missing (s : Metadata) (store : StoreLocator) : List Int :=
  ((s.partitionsOf store.storeLocatorId).map StorePartition.nodeId).filter (· ∉ s.nodeIdToNode)

/-- Whatever is returned is on nodes that are cached or healthy, and a store with a partition
on any other is not returned. -/
structure ReturnsUsable (query : ErStore) (healthy : List Int) (s : Metadata) : Prop where
  usable : ∀ t got, (doGetStore query).Yields (Metadata.among healthy) s t (.ok (some got)) →
    ∀ partition ∈ got.partitions, partition.processor.serverNodeId ∈ s.nodeIdToNode ∨
      partition.processor.serverNodeId ∈ healthy
  raises : ∀ store, query.stored s = some store → ∀ id ∈ s.missing store, id ∉ healthy →
    ∀ t result, (doGetStore query).Yields (Metadata.among healthy) s t result → ∃ e, result = .error e

/-- No look-up is answered in part. -/
def AllOrNone (query : ErStore) (healthy : List Int) (s : Metadata) : Prop :=
  ∀ store, query.stored s = some store →
    (∀ id ∈ s.missing store, id ∈ healthy) ∨ ∀ id ∈ s.missing store, id ∉ healthy

section
variable {healthy : List Int} {s t : Metadata}

theorem yields_call {op : Op} {last : Except Failure (Ans op)} :
    (call op).Yields (Metadata.among healthy) s t last ↔
      ∃ env, env.nodes = healthy ∧ Metadata.serve s op env = some (t,last) := by
  rw [call,yields_perform]
  simp only [Metadata.among,Service.restrict,decide_eq_true_eq,Option.ite_none_right_eq_some]

private theorem yields_answer {op : Op} {a : Ans op} (ends : (call op).Yields (Metadata.among healthy) s t (.ok a)) :
    ∃ env, env.nodes = healthy ∧ s.answer op env = (t,.ok a) := by
  obtain ⟨env,nodes,served⟩ := yields_call.mp ends
  refine ⟨env,nodes,?_⟩
  unfold Metadata.serve at served
  split at served
  · cases served
  · exact Option.some.inj served

private theorem answer_yields {op : Op} {a : Ans op} (answered : s.answer op { nodes := healthy } = (t,.ok a)) :
    (call op).Yields (Metadata.among healthy) s t (.ok a) := by
  refine yields_call.mpr ⟨{ nodes := healthy },rfl,?_⟩
  rw [Metadata.serve,if_neg (fun failed => by cases failed.2),answered]

private theorem lookUpNodes_none {missingNodeId : List Int} (some_ : missingNodeId ≠ []) (unhealthy : ∀ id ∈ missingNodeId, id ∉ healthy)
    {result : Except Failure Unit} (ends : (lookUpNodes missingNodeId).Yields (Metadata.among healthy) s t result) :
    ∃ e, result = .error e := by
  rw [lookUpNodes,if_neg some_] at ends
  obtain ⟨u,nodeResult,found,rest⟩ | ⟨e,_,rfl⟩ := yields_bind.mp ends
  · obtain ⟨env,nodes,answered⟩ := yields_answer found
    cases answered
    have none_found : env.nodes.filter (· ∈ missingNodeId) = [] := by
      refine List.filter_eq_nil_iff.mpr fun id there asked => ?_
      rw [nodes] at there
      exact unhealthy id (of_decide_eq_true asked) there
    rw [if_pos none_found] at rest
    exact ⟨_,rest.2⟩
  · exact ⟨e,rfl⟩

private theorem lookUpNodes_some {missingNodeId : List Int} {id : Int} (asked : id ∈ missingNodeId) (there : id ∈ healthy) :
    (lookUpNodes missingNodeId).Yields (Metadata.among healthy) s
      { s with nodeIdToNode := s.nodeIdToNode ++ healthy.filter (· ∈ missingNodeId) } (.ok ()) := by
  rw [lookUpNodes,if_neg (List.ne_nil_of_mem asked)]
  refine yields_bind.mpr (.inl ⟨s,healthy.filter (· ∈ missingNodeId),answer_yields rfl,?_⟩)
  have found : id ∈ healthy.filter (· ∈ missingNodeId) := List.mem_filter.mpr ⟨there,decide_eq_true asked⟩
  rw [if_neg (List.ne_nil_of_mem found)]
  exact answer_yields rfl

end

section
variable {query : ErStore} {healthy : List Int} {s t : Metadata} {store : StoreLocator}

private theorem doGetStore_ok {got : Option ErStore} (ends : (doGetStore query).Yields (Metadata.among healthy) s t (.ok got)) :
    (query.stored s = none ∧ got = none) ∨ ∃ store u, query.stored s = some store ∧
      (lookUpNodes (s.missing store)).Yields (Metadata.among healthy) s u (.ok ()) ∧
      ∃ options, got = some (store.toErStore (s.partitionsOf store.storeLocatorId) options) := by
  obtain ⟨u,rows,found,rest⟩ | ⟨e,_,wrong⟩ := yields_bind.mp ends
  swap
  · cases wrong
  obtain ⟨_,_,answered⟩ := yields_answer found
  cases answered
  split at rest
  · rename_i empty
    exact .inl ⟨by rw [ErStore.stored,empty]; rfl,Except.ok.inj rest.2⟩
  · rename_i store others first
    refine .inr ⟨store,?_⟩
    obtain ⟨v,parts,listed,rest⟩ | ⟨e,_,wrong⟩ := yields_bind.mp rest
    swap
    · cases wrong
    obtain ⟨_,_,answered⟩ := yields_answer listed
    cases answered
    split at rest
    · cases rest.2
    obtain ⟨w,ids,missing,rest⟩ | ⟨e,_,wrong⟩ := yields_bind.mp rest
    swap
    · cases wrong
    obtain ⟨_,_,answered⟩ := yields_answer missing
    cases answered
    obtain ⟨x,_,looked,rest⟩ | ⟨e,_,wrong⟩ := yields_bind.mp rest
    swap
    · cases wrong
    obtain ⟨y,opts,_,last⟩ | ⟨e,_,wrong⟩ := yields_bind.mp rest
    swap
    · cases wrong
    exact ⟨x,by rw [ErStore.stored,first]; rfl,looked,_,Except.ok.inj last.2⟩

private theorem doGetStore_yields (found : query.stored s = some store) (some_ : s.partitionsOf store.storeLocatorId ≠ [])
    (looked : (lookUpNodes (s.missing store)).Yields (Metadata.among healthy) s t (.ok ())) :
    ∃ got, (doGetStore query).Yields (Metadata.among healthy) s t (.ok (some got)) := by
  obtain ⟨rest,rows⟩ := List.head?_eq_some_iff.mp found
  refine ⟨store.toErStore (s.partitionsOf store.storeLocatorId) ((t.options.filter fun row =>
    row.storeLocatorId = store.storeLocatorId).foldl (fun options row => put options row.name row.data) query.options),?_⟩
  refine yields_bind.mpr (.inl ⟨s,store :: rest,?_,?_⟩)
  · exact answer_yields (congrArg (fun rows => (s,(Except.ok rows : Except Failure (List StoreLocator)))) rows)
  refine yields_bind.mpr (.inl ⟨s,s.partitionsOf store.storeLocatorId,answer_yields rfl,?_⟩)
  rw [if_neg some_]
  refine yields_bind.mpr (.inl ⟨s,s.missing store,answer_yields rfl,?_⟩)
  refine yields_bind.mpr (.inl ⟨t,(),looked,?_⟩)
  exact yields_bind.mpr (.inl ⟨t,_,answer_yields rfl,rfl,rfl⟩)

private theorem returnsUsable_of_raises (raises : ∀ store, query.stored s = some store → ∀ id ∈ s.missing store, id ∉ healthy →
    ∀ t result, (doGetStore query).Yields (Metadata.among healthy) s t result → ∃ e, result = .error e) :
    ReturnsUsable query healthy s := by
  refine ⟨fun t got ends partition there => ?_,raises⟩
  obtain ⟨-,none_got⟩ | ⟨store,_,found,-,_,returned⟩ := doGetStore_ok ends
  · cases none_got
  cases Option.some.inj returned
  obtain ⟨row,member,rfl⟩ := List.mem_map.mp there
  by_cases cached : row.nodeId ∈ s.nodeIdToNode
  · exact .inl cached
  · refine .inr (by_contra fun unhealthy => ?_)
    have missing : row.nodeId ∈ s.missing store :=
      List.mem_filter.mpr ⟨List.mem_map_of_mem member,decide_eq_true cached⟩
    obtain ⟨e,wrong⟩ := raises store found row.nodeId missing unhealthy t _ ends
    cases wrong

/-- `doGetStore` returns usable stores only, and raises for all others, exactly when of the
nodes that it looks up either all are healthy or none is. -/
theorem get_usable_exact (query : ErStore) (healthy : List Int) (s : Metadata) :
    ReturnsUsable query healthy s ↔ AllOrNone query healthy s := by
  constructor
  · intro returns store found
    by_contra mixed
    simp only [not_or,not_forall,not_not] at mixed
    obtain ⟨⟨absent,missing,unhealthy⟩,⟨present,asked,there⟩⟩ := mixed
    have some_ : s.partitionsOf store.storeLocatorId ≠ [] := by
      intro empty
      rw [Metadata.missing,empty] at missing
      cases missing
    obtain ⟨got,ends⟩ := doGetStore_yields found some_ (lookUpNodes_some asked there)
    obtain ⟨e,wrong⟩ := returns.raises store found absent missing unhealthy _ _ ends
    cases wrong
  · intro complete
    apply returnsUsable_of_raises
    intro store found id missing unhealthy t result ends
    cases result with
    | error e => exact ⟨e,rfl⟩
    | ok got =>
      obtain ⟨none_found,-⟩ | ⟨store',u,found',looked,-⟩ := doGetStore_ok ends
      · rw [found] at none_found
        cases none_found
      cases found.symm.trans found'
      have none_healthy := (complete store found).resolve_left fun all => unhealthy (all id missing)
      obtain ⟨e,wrong⟩ := lookUpNodes_none (List.ne_nil_of_mem missing) none_healthy looked
      cases wrong

end

/-- A store with partitions on the nodes 4 and 7. -/
def onTwoNodes : Metadata :=
  ⟨[⟨0,"LMDB","n","a","",2,0,0,0,.NORMAL⟩],[⟨0,4,0⟩,⟨0,7,1⟩],[],1,[]⟩

/-- Node 4 is healthy, node 7 is not, and none is cached. -/
theorem get_usable_partly : ¬ ReturnsUsable ⟨⟨-1,"","n","a","",0,0,0,0⟩,[],[]⟩ [4] onTwoNodes := by
  intro returns
  have found : (⟨⟨-1,"","n","a","",0,0,0,0⟩,[],[]⟩ : ErStore).stored onTwoNodes =
      some ⟨0,"LMDB","n","a","",2,0,0,0,.NORMAL⟩ := by decide
  have missing : onTwoNodes.missing ⟨0,"LMDB","n","a","",2,0,0,0,.NORMAL⟩ = [4,7] := by decide
  have asked : 4 ∈ onTwoNodes.missing ⟨0,"LMDB","n","a","",2,0,0,0,.NORMAL⟩ := by rw [missing]; decide
  obtain ⟨got,ends⟩ := doGetStore_yields found (by decide) (lookUpNodes_some asked (List.mem_singleton.mpr rfl))
  obtain ⟨e,wrong⟩ := returns.raises _ found 7 (by rw [missing]; decide) (by decide) _ _ ends
  cases wrong

end Eggroll.StoreCrud
