import Eggroll.BatchStream

/-! Pushing one object through a rollsite (`_rollsite_impl_grpc.py`): `_push_bytes` cuts its
bytes into chunks under four-byte keys and sends them as a partition, and `_pull_one` sorts
what the store has by the integers of the keys. -/
namespace Eggroll.ObjectTransfer
open Library Library.PyBytes Format BatchStream

section
variable (obj_bytes : Bytes) (body_bytes : Nat)

/-- `_generate_obj_bytes` from its loop on. Without a positive size it would not end. -/
def generate_obj_bytes (positive : 0 < body_bytes) (key_id cur_pos : Nat) : BinBatch.Input Pair :=
  if cur_pos ≤ obj_bytes.length then
    match toBytes4 key_id with
    | none => ⟨[],some .overflowError⟩
    | some key =>
      let later := generate_obj_bytes positive (key_id + 1) (cur_pos + body_bytes)
      ⟨(key,slice obj_bytes cur_pos (cur_pos + body_bytes : Nat)) :: later.items,later.failure⟩
  else ⟨[],none⟩
termination_by obj_bytes.length + 1 - cur_pos

end

/-- The streams of `_generate_batch_streams`, each as the batches it yields. -/
def generate_batch_streams (batches_per_stream : Nat) (batches : Upcoming) : List (List (Option Bytes)) :=
  match batches with
  | none => []
  | some (peek,rest) =>
    let cut := chunk_batch_stream (batches_per_stream - 1) peek rest
    cut.1 :: generate_batch_streams batches_per_stream cut.2
termination_by batches.batches.length
decreasing_by
  obtain ⟨some_batch,split⟩ := chunk_batch_stream_split (batches_per_stream - 1) peek rest
  have sizes := congrArg List.length split
  have positive := List.length_pos_iff.mpr some_batch
  rw [List.length_append] at sizes
  simp only [Upcoming.batches] at sizes ⊢
  omega

/-- A configured push of an object. -/
structure Push where
  configured : Int
  body_bytes : Nat
  batches_per_stream : Nat
  positive : 0 < body_bytes

/-- The pairs of a batch as the receiver reads them. Each takes more than one byte, so the
length of the batch is fuel enough. -/
def received (batch : Option Bytes) : List Pair :=
  (BinBatch.read_batch ((batch.getD []).length + 1) batch).1

def put (db : Store.Db) (pair : Pair) : Store.Db := db.insert pair.1 pair.2

namespace Push

def streams (push : Push) (obj : Bytes) : List (List (Option Bytes)) :=
  generate_batch_streams push.batches_per_stream (Upcoming.of
    (BinBatch.pair_to_bin_batch push.configured (generate_obj_bytes obj push.body_bytes push.positive 0 0)
      none push.body_bytes).1)

def stored (push : Push) (obj : Bytes) : Store.Db :=
  (push.streams obj).foldl (fun db stream => stream.foldl (fun db batch => (received batch).foldl put db) db) ∅

end Push

/-- `b"".join(map(lambda t: t[1], sorted(rp.get_all(), key=…)))`. -/
def join_sorted (all : List Pair) : Bytes :=
  (all.mergeSort fun x y => decide (fromBytes x.1 ≤ fromBytes y.1)).flatMap Prod.snd

/-- The object is pulled as it was pushed, in whatever order the store iterates. -/
def RoundTrips (push : Push) (obj : Bytes) : Prop :=
  ∀ all : List Pair, all.Perm (push.stored obj).toList → join_sorted all = obj

/-- What the loop of the cutting yields from some turn of it on. -/
structure Chunked (obj_bytes : Bytes) (body_bytes key_id cur_pos : Nat) (chunks : BinBatch.Input Pair) : Prop where
  silent : chunks.failure = none
  keys : ∀ pair ∈ chunks.items, pair.1.length = 4
  numbered : chunks.items.map (fun pair => fromBytes pair.1) = List.range' key_id chunks.items.length
  sizes : ∀ pair ∈ chunks.items, pair.2.length ≤ min body_bytes obj_bytes.length
  text : chunks.items.flatMap Prod.snd = obj_bytes.drop cur_pos

theorem generate_obj_bytes_chunked (obj_bytes : Bytes) (body_bytes : Nat) (positive : 0 < body_bytes)
    (key_id cur_pos : Nat)
    (few : cur_pos ≤ obj_bytes.length → key_id + (obj_bytes.length - cur_pos) / body_bytes < 4294967296) :
    Chunked obj_bytes body_bytes key_id cur_pos (generate_obj_bytes obj_bytes body_bytes positive key_id cur_pos) := by
  fun_induction generate_obj_bytes obj_bytes body_bytes positive key_id cur_pos with
  | case1 key_id cur_pos inside overflowed =>
    rw [toBytes4,if_pos (Nat.lt_of_le_of_lt (Nat.le_add_right _ _) (few inside))] at overflowed
    contradiction
  | case2 key_id cur_pos inside key numbered later ih =>
    have small : key_id < 4294967296 := Nat.lt_of_le_of_lt (Nat.le_add_right _ _) (few inside)
    rw [toBytes4,if_pos small] at numbered
    cases numbered
    obtain ⟨silent,keys,numbers,sizes,text⟩ := ih fun more => by
      have turns := few inside
      rw [Nat.div_eq_sub_div positive (by omega),Nat.sub_sub] at turns
      omega
    have cut := slice_natCast obj_bytes (cur_pos + body_bytes) inside
    rw [Nat.add_sub_cancel_left] at cut
    refine ⟨silent,?_,?_,?_,?_⟩
    · intro pair member
      rcases List.mem_cons.mp member with rfl | after
      · exact packInt_length key_id
      · exact keys pair after
    · rw [List.map_cons,numbers,fromBytes_packInt key_id small]
      rfl
    · intro pair member
      rcases List.mem_cons.mp member with rfl | after
      · rw [cut,List.length_take,List.length_drop]
        omega
      · exact sizes pair after
    · rw [List.flatMap_cons,text,cut,← List.drop_drop,List.take_append_drop]
  | case3 key_id cur_pos outside =>
    refine ⟨rfl,by simp,rfl,by simp,?_⟩
    rw [List.drop_eq_nil_of_le (by omega)]
    rfl

private theorem puts_get (pairs : List Pair) (distinct : (pairs.map Prod.fst).Nodup) (db : Store.Db) (pair : Pair) :
    (pairs.foldl put db)[pair.1]? = some pair.2 ↔
      pair ∈ pairs ∨ pair.1 ∉ pairs.map Prod.fst ∧ db[pair.1]? = some pair.2 := by
  induction pairs generalizing db with
  | nil => simp
  | cons p rest ih =>
    rw [List.map_cons,List.nodup_cons] at distinct
    rw [List.foldl_cons,ih distinct.2,put,Std.ExtTreeMap.getElem?_insert,List.map_cons]
    by_cases same : p.1 = pair.1
    · have absent : pair.1 ∉ rest.map Prod.fst := same ▸ distinct.1
      have elsewhere : pair ∉ rest := fun member => absent (List.mem_map_of_mem member)
      simp only [same,absent,elsewhere,Std.LawfulEqCmp.compare_eq_iff_eq,if_true,Option.some.injEq,List.mem_cons,
        or_false,false_or,not_false_eq_true,true_and,not_true_eq_false,false_and]
      constructor
      · intro value
        exact (Prod.ext same value).symm
      · rintro rfl
        rfl
    · have other : pair ≠ p := fun eq => same (congrArg Prod.fst eq).symm
      have other' : ¬ pair.1 = p.1 := fun eq => same eq.symm
      simp only [Std.LawfulEqCmp.compare_eq_iff_eq,same,if_false,List.mem_cons,other,other',false_or]

private theorem puts_perm (pairs : List Pair) (distinct : (pairs.map Prod.fst).Nodup) :
    (pairs.foldl put ∅).toList.Perm pairs := by
  have nodup : (pairs.foldl put ∅).toList.Nodup := by
    apply Std.ExtTreeMap.distinct_keys_toList.imp
    intro pair pair' apart same
    exact apart (same ▸ Std.ReflCmp.compare_self)
  rw [List.perm_ext_iff_of_nodup nodup (List.Nodup.of_map _ distinct)]
  intro pair
  rw [Std.ExtTreeMap.mem_toList_iff_getElem?_eq_some,puts_get pairs distinct]
  simp

private theorem generate_batch_streams_flatten (batches_per_stream : Nat) (batches : Upcoming) :
    (generate_batch_streams batches_per_stream batches).flatten = batches.batches := by
  fun_induction generate_batch_streams batches_per_stream batches with
  | case1 => rfl
  | case2 peek rest cut ih =>
    rw [List.flatten_cons,ih]
    exact (chunk_batch_stream_split (batches_per_stream - 1) peek rest).2

private theorem received_whole {batch : Option Bytes} (whole : BinBatch.Whole batch) :
    received batch = BinBatch.inflight batch := by
  obtain ⟨group,encodable,rfl⟩ := whole
  have enough := BinBatch.length_le_batchOf group
  rw [received,Option.getD_some,BinBatch.read_batchOf group encodable _ (by omega),BinBatch.inflight,
    BinBatch.decoded_batchOf group encodable,Option.getD_some]

namespace Push
variable {push : Push} {obj : Bytes}

private theorem stored_eq : push.stored obj = ((push.streams obj).flatten.flatMap received).foldl put ∅ := by
  rw [stored,List.foldl_flatMap,List.foldl_flatten]

def chunks (push : Push) (obj : Bytes) : BinBatch.Input Pair :=
  generate_obj_bytes obj push.body_bytes push.positive 0 0

/-- A chunk's length fits the field that is written for it. -/
def Fits (push : Push) (obj : Bytes) : Prop := push.body_bytes < 2147483648 ∨ obj.length < 2147483648

theorem arrives (room : 20 ≤ push.body_bytes) (fits : push.Fits obj)
    (chunked : Chunked obj push.body_bytes 0 0 (push.chunks obj)) :
    (push.streams obj).flatten.flatMap received = (push.chunks obj).items := by
  have input : push.chunks obj = ⟨(push.chunks obj).items,none⟩ := by rw [← chunked.silent]
  have encodable : ∀ pair ∈ (push.chunks obj).items, Encodable pair := by
    intro pair member
    have key := chunked.keys pair member
    have size := chunked.sizes pair member
    have named : pair.1 ≠ [] := by
      intro empty
      rw [empty] at key
      contradiction
    rcases fits with small | small
    · exact ⟨named,by omega,by omega⟩
    · exact ⟨named,by omega,by omega⟩
  have produced : BinBatch.Produced push.configured push.body_bytes (push.chunks obj).items :=
    BinBatch.Produced.of_encodable push.configured encodable (by omega)
  obtain ⟨whole,carried⟩ := produced.batches fun pair member => (encodable pair member).nonempty
  rw [streams,generate_batch_streams_flatten,Upcoming.batches_of]
  change (BinBatch.pair_to_bin_batch push.configured (push.chunks obj) none push.body_bytes).1.flatMap received = _
  rw [input]
  refine (List.flatMap_congr fun batch member => ?_).trans carried
  exact received_whole (whole batch member)

end Push

private theorem turn_oversize (sendbuf_size : Int) (limit : Option Int) {e : BinBatch.Encoder} {pair : Pair}
    (room : e.writer.2.offset + pair.1.length + 8 ≤ e.writer.1) (key : pair.1.length < 2147483648)
    (large : 2147483648 ≤ pair.2.length) :
    BinBatch.turn sendbuf_size limit e pair = ([],.raised .structError) := by
  obtain ⟨a,doneA,movedA,-⟩ := PairBinWriter.write_int32_ok e.writer.2 pair.1.length key (by omega)
  obtain ⟨b,doneB,movedB,-⟩ := PairBinWriter.write_bytes_ok a pair.1 (by omega)
  have outside : inInt32 pair.2.length = false := by
    simp only [inInt32,Bool.and_eq_false_iff,decide_eq_false_iff_not]
    omega
  have refused : PairBinWriter.write_int32 pair.2.length b = .error .structError b := by
    rw [PairBinWriter.write_int32,if_pos (by omega),outside]
    rfl
  have raised : e.writer.2.write pair.1 pair.2 = .error .structError b := by
    rw [PairBinWriter.write,PairBinWriter.write_pair,bind_ok doneA,bind_ok doneB,bind_error refused]
  rw [BinBatch.turn,raised]

namespace Push
variable {push : Push} {obj : Bytes}

private theorem oversize_lost (unfit : ¬ push.Fits obj) : push.stored obj = ∅ := by
  obtain ⟨large,long⟩ := not_or.mp unfit
  have first : generate_obj_bytes obj push.body_bytes push.positive 0 0 =
      ⟨(packInt 0,slice obj (0 : Nat) push.body_bytes) ::
          (generate_obj_bytes obj push.body_bytes push.positive 1 push.body_bytes).items,
        (generate_obj_bytes obj push.body_bytes push.positive 1 push.body_bytes).failure⟩ := by
    rw [generate_obj_bytes,if_pos (Nat.zero_le _)]
    simp only [toBytes4,Nat.zero_add]
    rfl
  have size : (slice obj (0 : Nat) push.body_bytes).length = min push.body_bytes obj.length := by
    rw [slice_natCast obj push.body_bytes (Nat.zero_le obj.length),List.drop_zero,Nat.sub_zero,List.length_take]
  have given : ¬ (push.body_bytes : Int) ≤ 0 := by omega
  obtain ⟨w,committed,room,start,-⟩ := BinBatch.commit_ok push.body_bytes none (by omega)
  have stopped : BinBatch.turn push.body_bytes none ⟨w,0⟩ (packInt 0,slice obj (0 : Nat) push.body_bytes) =
      ([],.raised .structError) :=
    turn_oversize push.body_bytes none (by simp only [packInt_length]; omega)
      (by simp only [packInt_length]; omega) (by simp only [size]; omega)
  have nothing : push.streams obj = [] := by
    rw [streams,first,BinBatch.pair_to_bin_batch]
    simp only [if_neg given,committed,BinBatch.encode,stopped]
    rw [Upcoming.of,generate_batch_streams]
  rw [stored,nothing]
  rfl

private theorem oversize_pulled (unfit : ¬ push.Fits obj) (round_trips : RoundTrips push obj) : obj = [] := by
  have nothing := round_trips [] (by rw [oversize_lost unfit]; exact List.Perm.refl _)
  rw [join_sorted,List.mergeSort_nil] at nothing
  exact nothing.symm

end Push

/-- An object is pulled as it was pushed exactly when the lengths of its chunks fit their
fields: a trailing empty chunk, batches of one chunk each and any cut into streams make no
difference. -/
theorem object_round_trip (push : Push) (obj : Bytes) (room : 20 ≤ push.body_bytes)
    (few : obj.length / push.body_bytes + 1 < 4294967296) : RoundTrips push obj ↔ push.Fits obj := by
  have chunked := generate_obj_bytes_chunked obj push.body_bytes push.positive 0 0 fun _ => by
    rw [Nat.zero_add,Nat.sub_zero]
    omega
  have increasing : ((push.chunks obj).items.map fun pair => fromBytes pair.1).Pairwise (· < ·) := by
    rw [Push.chunks,chunked.numbered]
    exact List.pairwise_lt_range'
  constructor
  · intro round_trips
    by_contra unfit
    have long := (not_or.mp unfit).2
    rw [Push.oversize_pulled unfit round_trips] at long
    exact long (by decide)
  · intro fits all perm
    have distinct : ((push.chunks obj).items.map Prod.fst).Nodup := by
      rw [List.pairwise_map] at increasing
      rw [List.Nodup,List.pairwise_map]
      exact increasing.imp fun less same => absurd (congrArg fromBytes same) (Nat.ne_of_lt less)
    rw [Push.stored_eq,Push.arrives room fits chunked] at perm
    have sorted := mergeSort_of_increasing (fun pair : Pair => fromBytes pair.1)
      (perm.trans (puts_perm _ distinct)) increasing
    rw [join_sorted,sorted]
    exact chunked.text

/-- Three bytes, in one chunk and not the trailing empty one. -/
theorem object_round_trip_small : RoundTrips ⟨0,20,1,by decide⟩ [1,2,3] :=
  (object_round_trip ⟨0,20,1,by decide⟩ [1,2,3] (by decide) (by decide)).mpr (.inl (by decide))

/-- Two gibibytes in one chunk are lost. -/
theorem oversize_not_round_trips :
    ¬ RoundTrips ⟨0,2147483648,1,by decide⟩ (List.replicate 2147483648 0) := by
  intro round_trips
  have unfit : ¬ Push.Fits ⟨0,2147483648,1,by decide⟩ (List.replicate 2147483648 0) := by
    rw [Push.Fits,List.length_replicate,or_self]
    exact Nat.lt_irrefl _
  have size := congrArg List.length (Push.oversize_pulled unfit round_trips)
  rw [List.length_replicate,List.length_nil] at size
  omega

end Eggroll.ObjectTransfer
