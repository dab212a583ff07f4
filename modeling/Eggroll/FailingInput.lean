import Eggroll.PushRetries
import Eggroll.TransferServicer

/-! An input that raises, behind `pair_to_bin_batch`: what a push of it, a shuffle send of it
and a get_all of it come to. The generator ends normally whenever its buffer takes a header,
so each of them takes the batches before the error for the whole partition. -/
namespace Eggroll.FailingInput
open Library Format BinBatch BatchStream

abbrev Batches := List (Option Bytes) × Ending

/-- The packets of `_push_partition`. An error of the generator is raised while the stream
it belongs to is collected, so only the streams before are pushed. -/
def pushed (data_type : String) (batches_per_stream : Nat) (tries : Nat → List Nat) : Batches →
    List (List Packet)
  | (batches,.returned) => push_partition data_type batches_per_stream tries batches
  | (batches,_) => push tries 0 (BatchStreamHelper.create data_type) (streams batches_per_stream batches).dropLast

/-- The requests that `TransferClient.send` makes of a generator, or what
`GrpcTransferServicer.recv` makes of it. -/
def transferred (tag : String) (broker : Batches) : List Recv.TransferBatch :=
  Recv.number tag 0 (broker.1.map fun data => data.getD [])

/-- How `send` ends; the servicer refuses a stream without any request. -/
def send (tag : String) (broker : Batches) : Ending :=
  if broker.2 = .returned ∧ transferred tag broker = [] then
    .raised (.valueError "error in processing None")
  else broker.2

def gather (fuel : Nat) (tag : String) (broker : Batches) : List Pair × Ending :=
  match bin_batch_to_pair fuel ((transferred tag broker).map fun b => some b.data) with
  | (pairs,.returned) => (pairs,broker.2)
  | decoded => decoded

/-- What fails: `eggroll.rollpair.transferpair.sendbuf.size`, the size asked for, and the
pairs that come before the error. -/
structure Failing where
  configured : Int
  sendbuf_size : Int
  limit : Option Int
  pairs : List Pair
  failure : PyError

namespace Failing
variable (input : Failing)

def bufferSize : Int := if input.sendbuf_size ≤ 0 then input.configured else input.sendbuf_size

def batches : Batches :=
  pair_to_bin_batch input.configured ⟨input.pairs,some input.failure⟩ input.limit input.sendbuf_size

/-- The error is seen by whoever consumes the batches: nothing ends as a complete stream. -/
structure Propagates : Prop where
  consumed : input.batches.2 ≠ .returned
  pushed : ∀ data_type batches_per_stream tries, ∀ stream ∈ pushed data_type batches_per_stream tries input.batches,
    ∀ packet ∈ stream, packet.header.stage ≠ FINISH_STATUS
  sent : ∀ tag, send tag input.batches ≠ .returned
  gathered : ∀ fuel tag, (gather fuel tag input.batches).2 ≠ .returned

end Failing

private theorem commit_short (bs : Int) (short : bs < 16) : ∃ e, commit bs none = .error e := by
  unfold commit
  cases size : bytearray bs with
  | error e => exact ⟨e,rfl⟩
  | ok n =>
    cases created : PairBinWriter.create n with
    | error e => exact ⟨e,by simp only [bind,Except.bind,created]⟩
    | ok w =>
      -- the content of a fresh buffer is the header
      have header := congrArg List.length (PairBinWriter.create_content created)
      rw [PairBinWriter.content_length,header_length] at header
      have inside := w.inside
      unfold bytearray at size
      split at size
      · simp at size
      · simp only [Except.ok.injEq] at size
        omega

private theorem batches_ending (input : Failing) :
    (input.bufferSize < 16 → input.batches.1 = [] ∧ ∃ e, input.batches.2 = .raised e) ∧
      (16 ≤ input.bufferSize → input.batches.2 = .returned) := by
  constructor
  · intro short
    obtain ⟨e,failed⟩ := commit_short _ short
    simp only [Failing.bufferSize] at failed
    simp only [Failing.batches,pair_to_bin_batch,failed,true_and]
    exact ⟨e,rfl⟩
  · intro room
    obtain ⟨w,committed,_⟩ := commit_ok _ none room
    simp only [Failing.bufferSize] at committed
    simp only [Failing.batches,pair_to_bin_batch,committed]

private theorem pushed_nonempty (data_type : String) (batches_per_stream : Nat) {batches : List (Option Bytes)}
    (some_batch : batches ≠ []) :
    (push_partition data_type batches_per_stream (fun _ => []) batches).flatten ≠ [] := by
  have enough : (Upcoming.of batches).batches.length ≤ batches.length := by rw [Upcoming.batches_of]
  obtain ⟨ordered,covered⟩ := _generate_batch_streams_ordered batches_per_stream enough
  have present := (push_numbered ordered (BatchStreamHelper.create data_type) 0).present
  rw [Upcoming.batches_of] at covered
  rw [push_partition,streams]
  cases split : _generate_batch_streams batches_per_stream batches.length (Upcoming.of batches) with
  | nil =>
    rw [split] at covered
    exact absurd covered.symm some_batch
  | cons first rest =>
    rw [split,push] at present
    rw [push,List.flatten_cons,ne_eq,List.append_eq_nil_iff]
    exact fun both => present _ List.mem_cons_self both.1

/-- The batches before the error, if there are any, are pushed like a whole partition: the
last packet is marked, with totals that agree with what was sent. -/
theorem failing_input_marked (input : Failing) (data_type : String) (batches_per_stream : Nat)
    (room : 16 ≤ input.bufferSize) (some_batch : input.batches.1 ≠ []) :
    ∃ packet ∈ (pushed data_type batches_per_stream (fun _ => []) input.batches).flatten,
      packet.header.stage = FINISH_STATUS ∧ packet.header.total_batches =
        (pushed data_type batches_per_stream (fun _ => []) input.batches).flatten.length := by
  have whole : pushed data_type batches_per_stream (fun _ => []) input.batches =
      push_partition data_type batches_per_stream (fun _ => []) input.batches.1 := by
    rw [show input.batches = (input.batches.1,.returned) from Prod.ext rfl ((batches_ending input).2 room)]
    rfl
  rw [whole]
  have some_packet := pushed_nonempty data_type batches_per_stream some_batch
  obtain ⟨mark,total,_⟩ := (push_partition_numbered data_type batches_per_stream input.batches.1).marked _
    (List.getLast?_eq_some_getLast some_packet)
  exact ⟨_,List.getLast_mem some_packet,mark,total⟩

/-- A failing input is seen to fail exactly where no input could be packed: the buffer is too
small for a header. -/
theorem failure_propagates (input : Failing) : input.Propagates ↔ input.bufferSize < 16 := by
  obtain ⟨short,long⟩ := batches_ending input
  constructor
  · intro propagates
    by_contra room
    exact propagates.consumed (long (by omega))
  · intro small
    obtain ⟨none_yielded,e,raised⟩ := short small
    have batches : input.batches = ([],.raised e) := Prod.ext none_yielded raised
    refine ⟨by simp [batches],?_,by simp [send,batches],?_⟩
    · intro data_type batches_per_stream tries stream member
      simp [batches,pushed,streams,_generate_batch_streams,push] at member
    · intro fuel tag
      simp [gather,batches,transferred,Recv.number,bin_batch_to_pair]

/-- Two pairs that do not fit one buffer, and an error behind them: the second pair is lost,
and `gather` ends with the first one. -/
theorem failure_swallowed : ¬ ∀ input : Failing, input.Propagates := by
  intro always
  have ends := (always ⟨0,30,none,[([1],[2]),([3],[4])],.valueError "broken"⟩).gathered 2 "tag"
  revert ends
  decide

end Eggroll.FailingInput
