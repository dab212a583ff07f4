import Eggroll.BinBatch
import Eggroll.Library.Tally
import Eggroll.Store

/-! The two ends of a rollsite push. `_BatchStreamHelper` (`_rollsite_impl_grpc.py`) cuts
the batches of a partition into streams and numbers the packets of each attempt to push
a stream; `_BatchStreamStatus` (`_roll_site_ops.py`) counts what arrives. -/
namespace Eggroll.BatchStream
open Library Format

def FINISH_STATUS : String := "finish_partition"

/-- The fields of the header that a transfer reads or writes. -/
structure RollSiteHeader where
  data_type : String
  total_streams : Int := -1
  total_batches : Int := -1
  stream_seq : Nat
  batch_seq : Nat
  stage : String := ""
deriving Repr, DecidableEq

/-- A packet as it is sent, with the header's values at that time; no body is no bytes. -/
structure Packet where
  header : RollSiteHeader
  data : Bytes
deriving Repr, DecidableEq

structure BatchStreamHelper where
  rs_header : RollSiteHeader
  finish_partition : Bool
  last_batch_seq : Nat
  last_stream_seq : Nat
deriving Repr, DecidableEq

namespace BatchStreamHelper

def create (data_type : String) : BatchStreamHelper :=
  ⟨{ data_type := data_type, stream_seq := 0, batch_seq := 0 },false,0,0⟩

/-- What runs of the body of `generate_packet` before its first packet: the first attempt
saves the numbers, a later one goes back to those saved. -/
def rewind (h : BatchStreamHelper) (cur_retry : Nat) : BatchStreamHelper :=
  if cur_retry = 0 then
    { h with last_batch_seq := h.rs_header.batch_seq, last_stream_seq := h.rs_header.stream_seq }
  else
    { h with rs_header :=
        { h.rs_header with batch_seq := h.last_batch_seq, stream_seq := h.last_stream_seq } }

def count_up (h : BatchStreamHelper) : BatchStreamHelper :=
  { h with rs_header := { h.rs_header with batch_seq := h.rs_header.batch_seq + 1 } }

def mark_finish (h : BatchStreamHelper) : BatchStreamHelper :=
  if h.finish_partition then
    { h with rs_header := { h.rs_header with
        stage := FINISH_STATUS
        total_streams := h.rs_header.stream_seq
        total_batches := h.rs_header.batch_seq } }
  else h

def encode_packet (h : BatchStreamHelper) (batch : Option Bytes) : Packet :=
  ⟨h.rs_header,batch.getD []⟩

end BatchStreamHelper

/-- A generator made by `generate_packet`: its body has not begun, stands at a `yield` in
the loop with the rest of the stream before it, or has yielded the last packet. -/
inductive Generator
  | fresh
  | looping (prev_batch : Option Bytes) (rest : List (Option Bytes))
  | exhausted
deriving Repr, DecidableEq

/-- `if prev_batch`. -/
def truthy (batch : Option Bytes) : Bool := batch.any (fun data => !data.isEmpty)

namespace Generator

/-- From `prev_batch` and what the loop has not taken yet to the next packet. -/
def advance (h : BatchStreamHelper) :
    Option Bytes → List (Option Bytes) → Packet × BatchStreamHelper × Generator
  | prev_batch, bin_batch :: rest =>
    if truthy prev_batch then
      (h.count_up.encode_packet prev_batch,h.count_up,.looping bin_batch rest)
    else advance h bin_batch rest
  | prev_batch, [] =>
    (h.count_up.mark_finish.encode_packet prev_batch,h.count_up.mark_finish,.exhausted)

/-- `next(packets)` of attempt `cur_retry` at the stream `bin_batch_iter`. -/
def next (h : BatchStreamHelper) (bin_batch_iter : List (Option Bytes)) (cur_retry : Nat) :
    Generator → Option (Packet × BatchStreamHelper × Generator)
  | .fresh => some (advance (h.rewind cur_retry) none bin_batch_iter)
  | .looping prev_batch rest => some (advance h prev_batch rest)
  | .exhausted => none

end Generator

/-- What `batches` still has: the batch `peek` and those after it. -/
abbrev Upcoming := Option (Option Bytes × List (Option Bytes))

def Upcoming.batches : Upcoming → List (Option Bytes)
  | some (peek,rest) => peek :: rest
  | none => []

/-- `next(batches)`; `none` is StopIteration. -/
def Upcoming.of : List (Option Bytes) → Upcoming
  | peek :: rest => some (peek,rest)
  | [] => none

/-- The batches of one stream, after `more` further turns of its loop, and what is left. -/
def chunk_batch_stream : Nat → Option Bytes → List (Option Bytes) → List (Option Bytes) × Upcoming
  | more + 1, cur_batch, next_batch :: rest =>
    let later := chunk_batch_stream more next_batch rest
    (cur_batch :: later.1,later.2)
  | _, cur_batch, rest => ([cur_batch],Upcoming.of rest)

theorem Upcoming.batches_of (batches : List (Option Bytes)) : (Upcoming.of batches).batches = batches := by
  cases batches <;> rfl

theorem chunk_batch_stream_split (more : Nat) (cur_batch : Option Bytes) (rest : List (Option Bytes)) :
    (chunk_batch_stream more cur_batch rest).1 ≠ [] ∧
      (chunk_batch_stream more cur_batch rest).1 ++ (chunk_batch_stream more cur_batch rest).2.batches =
        cur_batch :: rest := by
  fun_induction chunk_batch_stream more cur_batch rest with
  | case1 more cur_batch next_batch rest later ih => exact ⟨by simp,by rw [List.cons_append,ih.2]⟩
  | case2 => exact ⟨by simp,by rw [Upcoming.batches_of]; rfl⟩

def Generator.left (stream : List (Option Bytes)) : Generator → List (Option Bytes)
  | .fresh => stream
  | .looping prev_batch rest => prev_batch :: rest
  | .exhausted => []

def Generator.opened (h : BatchStreamHelper) (cur_retry : Nat) : Generator → BatchStreamHelper
  | .fresh => h.rewind cur_retry
  | _ => h

private theorem Generator.advance_truthy (h : BatchStreamHelper) {batch : Option Bytes} (full : truthy batch = true)
    (after : List (Option Bytes)) :
    let h' := if after = [] then h.count_up.mark_finish else h.count_up
    ∃ g, advance h batch after = (h'.encode_packet batch,h',g) ∧ g ≠ .fresh ∧ ∀ stream, g.left stream = after := by
  cases after with
  | nil => exact ⟨.exhausted,rfl,by simp,fun _ => rfl⟩
  | cons next rest =>
    exact ⟨.looping next rest,by simp [advance,full],by simp,fun _ => rfl⟩

theorem Generator.next_packet (h : BatchStreamHelper) {stream : List (Option Bytes)} (cur_retry : Nat)
    {g : Generator} {batch : Option Bytes} {after : List (Option Bytes)}
    (left : g.left stream = batch :: after) (full : truthy batch = true) :
    let h' := if after = [] then (g.opened h cur_retry).count_up.mark_finish
      else (g.opened h cur_retry).count_up
    ∃ g', g.next h stream cur_retry = some (h'.encode_packet batch,h',g') ∧ g' ≠ .fresh ∧
      ∀ stream, g'.left stream = after := by
  cases g with
  | fresh =>
    subst left
    obtain ⟨g',advanced,later⟩ := advance_truthy (h.rewind cur_retry) full after
    exact ⟨g',by rw [next,advance]; simp only [truthy,Option.any_none,Bool.false_eq_true,if_false,advanced,opened],later⟩
  | looping prev_batch rest =>
    obtain ⟨rfl,rfl⟩ := List.cons.inj left
    obtain ⟨g',advanced,later⟩ := advance_truthy h full rest
    exact ⟨g',by simp only [next,advanced,opened],later⟩
  | exhausted => simp [Generator.left] at left

section
variable (h : BatchStreamHelper) (cur_retry : Nat) (g : Generator)

theorem Generator.opened_header :
    (g.opened h cur_retry).finish_partition = h.finish_partition ∧
      (g.opened h cur_retry).rs_header.stage = h.rs_header.stage ∧
      (g.opened h cur_retry).rs_header.total_batches = h.rs_header.total_batches := by
  cases g <;> simp only [opened,BatchStreamHelper.rewind,and_self]
  split <;> simp only [and_self]

theorem BatchStreamHelper.mark_finish_numbers :
    h.mark_finish.finish_partition = h.finish_partition ∧
      h.mark_finish.last_batch_seq = h.last_batch_seq ∧
      h.mark_finish.rs_header.batch_seq = h.rs_header.batch_seq := by
  unfold mark_finish
  split <;> simp only [and_self]

end

structure BatchStreamStatus where
  stage : String
  total_batches : Int
  total_streams : Int
  data_type : Option String
  batch_seq_to_pair_counter : Counts
  stream_seq_to_pair_counter : Counts
  stream_seq_to_batch_seq : Counts
  stream_finish_event : Bool
  header_arrive_event : Bool
  rs_header : Option RollSiteHeader
  is_in_order : Bool

/-- What `wait_finish` returns. -/
structure BSS where
  is_finished : Bool
  total_batches : Int
  batch_seq_to_pair_counter : Counts
  total_streams : Int
  stream_seq_to_pair_counter : Counts
  stream_seq_to_batch_seq : Counts
  total_pairs : Nat
  data_type : Option String

namespace BatchStreamStatus

def create : BatchStreamStatus :=
  ⟨"doing",-1,-1,none,∅,∅,∅,false,false,none,true⟩

def set_done (bss : BatchStreamStatus) (rs_header : RollSiteHeader) : BatchStreamStatus :=
  { bss with
    total_batches := rs_header.total_batches
    total_streams := rs_header.total_streams
    stage := "done"
    is_in_order := bss.is_in_order &&
      rs_header.total_batches == (bss.batch_seq_to_pair_counter.keys.length : Int) }

def count_batch (bss : BatchStreamStatus) (rs_header : RollSiteHeader) (batch_pairs : Nat) :
    BatchStreamStatus :=
  { bss with
    rs_header := bss.rs_header.or (some rs_header)
    header_arrive_event := true
    batch_seq_to_pair_counter := bss.batch_seq_to_pair_counter.insert rs_header.batch_seq batch_pairs
    stream_seq_to_pair_counter := bss.stream_seq_to_pair_counter.insert rs_header.stream_seq
      ((bss.stream_seq_to_pair_counter.lookup rs_header.stream_seq).getD 0 + batch_pairs)
    stream_seq_to_batch_seq := bss.stream_seq_to_batch_seq.insert rs_header.stream_seq rs_header.batch_seq }

def check_finish (bss : BatchStreamStatus) : BatchStreamStatus :=
  if bss.stage = "done" ∧ bss.total_batches = (bss.batch_seq_to_pair_counter.keys.length : Int) then
    { bss with stream_finish_event := true }
  else bss

/-- `wait_finish`, once its wait for the event is over. -/
def wait_finish (bss : BatchStreamStatus) : BSS :=
  ⟨bss.stream_finish_event,bss.total_batches,bss.batch_seq_to_pair_counter,bss.total_streams,
    bss.stream_seq_to_pair_counter,bss.stream_seq_to_batch_seq,bss.batch_seq_to_pair_counter.total,
    bss.data_type⟩

end BatchStreamStatus

/-- The `wb.put` of each pair: what the transaction holds then, how many were put, and the
error of the one that was refused. -/
def putPairs (accepts : Bytes → Bool) : List Pair → Store.Db → Store.Db × Nat × Option Store.StoreError
  | [], txn => (txn,0,none)
  | pair :: rest, txn =>
    match Store.put accepts txn pair.1 pair.2 with
    | .error e => (txn,0,some e)
    | .ok txn' =>
      let later := putPairs accepts rest txn'
      (later.1,later.2.1 + 1,later.2.2)

/-- The body of the loop of `PutBatchTask.run` for one packet; without a status it raised.
Each pair takes more than one byte, so the length of the data is fuel enough. -/
def put_batch (accepts : Bytes → Bool) (bss : BatchStreamStatus) (txn : Store.Db)
    (batch : Packet) : Store.Db × Option BatchStreamStatus :=
  let (pairs,ending) :=
    if batch.data.isEmpty then ([],.returned)
    else BinBatch.read_batch (batch.data.length + 1) (some batch.data)
  let (txn',batch_pairs,refused) := putPairs accepts pairs txn
  match refused, ending with
  | none, .returned =>
    let counted := bss.count_batch batch.header batch_pairs
    let typed := { counted with data_type := some batch.header.data_type }
    (txn',some (if batch.header.stage = FINISH_STATUS then typed.set_done batch.header else typed))
  | _, _ => (txn',none)

section
variable {accepts : Bytes → Bool} {txn : Store.Db}

def Has (db : Store.Db) (pair : Pair) : Prop := db[pair.1]? = some pair.2

theorem putPairs_kept {all : List Pair} (distinct : (all.map Prod.fst).Nodup) {pair : Pair} (inside : pair ∈ all)
    (group : List Pair) (within : ∀ p ∈ group, p ∈ all) (held : Has txn pair) :
    Has (putPairs accepts group txn).1 pair := by
  induction group generalizing txn with
  | nil => exact held
  | cons p rest ih =>
    rw [putPairs]
    split
    · exact held
    · rename_i txn' put
      apply ih (fun q member => within q (List.mem_cons_of_mem _ member))
      rw [Has,Store.put_get put]
      split
      · rename_i same
        rw [List.inj_on_of_nodup_map distinct (within p List.mem_cons_self) inside same]
      · exact held

theorem putPairs_put {all : List Pair} (distinct : (all.map Prod.fst).Nodup)
    (group : List Pair) (within : ∀ p ∈ group, p ∈ all)
    (accepted : (putPairs accepts group txn).2.2 = none) :
    (putPairs accepts group txn).2.1 = group.length ∧
      ∀ pair ∈ group, Has (putPairs accepts group txn).1 pair := by
  induction group generalizing txn with
  | nil => exact ⟨rfl,fun _ member => by simp at member⟩
  | cons p rest ih =>
    have later : ∀ q ∈ rest, q ∈ all := fun q member => within q (List.mem_cons_of_mem _ member)
    rw [putPairs] at accepted ⊢
    split at accepted
    · simp at accepted
    · rename_i txn' put
      obtain ⟨count,held⟩ := ih later accepted
      refine ⟨by simp only [count,List.length_cons],fun q member => ?_⟩
      rcases List.mem_cons.mp member with rfl | member
      · apply putPairs_kept distinct (within q List.mem_cons_self) rest later
        rw [Has,Store.put_get put,if_pos rfl]
      · exact held q member

theorem put_batch_whole (accepts : Bytes → Bool) (bss : BatchStreamStatus) (txn : Store.Db) {packet : Packet} {group : List Pair}
    (encodable : ∀ pair ∈ group, Encodable pair) (data : packet.data = BinBatch.batchOf group) :
    (put_batch accepts bss txn packet).1 = (putPairs accepts group txn).1 ∧
      ∀ bss', (put_batch accepts bss txn packet).2 = some bss' →
        (putPairs accepts group txn).2.2 = none ∧
        bss'.batch_seq_to_pair_counter = bss.batch_seq_to_pair_counter.insert packet.header.batch_seq
          (putPairs accepts group txn).2.1 ∧
        bss'.stream_finish_event = bss.stream_finish_event ∧
        if packet.header.stage = FINISH_STATUS then
          bss'.stage = "done" ∧ bss'.total_batches = packet.header.total_batches
        else bss'.stage = bss.stage ∧ bss'.total_batches = bss.total_batches := by
  have some_bytes : packet.data.isEmpty = false := by
    rw [data]
    rfl
  have read : BinBatch.read_batch (packet.data.length + 1) (some packet.data) = (group,.returned) := by
    have enough := BinBatch.length_le_batchOf group
    rw [data]
    exact BinBatch.read_batchOf group encodable _ (by omega)
  rw [put_batch,some_bytes,if_neg (by simp),read]
  rcases result : putPairs accepts group txn with ⟨txn',count,_ | refused⟩
  · simp only [result,Option.some.injEq]
    refine ⟨trivial,fun bss' done => ?_⟩
    subst done
    by_cases last : packet.header.stage = FINISH_STATUS
    · simp only [last,if_true]
      exact ⟨trivial,rfl,rfl,rfl,rfl⟩
    · simp only [last,if_false]
      exact ⟨trivial,rfl,rfl,rfl,rfl⟩
  · simp only [result]
    exact ⟨trivial,fun _ done => by simp at done⟩

end

end Eggroll.BatchStream
