import Eggroll.BatchStream
import Eggroll.Library.System

/-! Pushing a partition through a rollsite: the push loop with its retries, the packets of
each call on their way, and the PutBatch runs for the tag, which the per-tag lock lets in
one at a time and in any order. A run takes any prefix of the packets of its call. -/
namespace Eggroll.RollSite
open Library Format BatchStream

structure Job where
  data_type : String
  configured : Int
  body_bytes : Int
  batches_per_stream : Nat
  max_retry_cnt : Nat
  accepts : Bytes → Bool
  pairs : List Pair

def Job.bin_batches (job : Job) : List (Option Bytes) :=
  (BinBatch.pair_to_bin_batch job.configured ⟨job.pairs,none⟩ none job.body_bytes).1

/-- Where the push loop stands. `cur_retry` counts the calls of `stub.push` for `stream`. -/
inductive Phase
  | streams
  | pushing (stream : List (Option Bytes)) (cur_retry call : Nat) (packets : Generator)
  | returned
  | raised

/-- `pushed` and `saved` are history: the number of batches in the streams pushed before
this one, and whether `generate_packet` has saved its numbers for this one. -/
structure Sender where
  helper : BatchStreamHelper
  upcoming : Upcoming
  phase : Phase
  pushed : Nat
  saved : Bool

/-- A PutBatch run that holds the lock: its call, how many packets of that it has taken,
and the uncommitted state of the store. -/
structure PutBatchRun where
  call : Nat
  taken : Nat
  txn : Store.Db

structure State where
  sender : Sender
  calls : Nat
  sent : Nat → List Packet
  begun : Nat → Bool
  recorder : Option BatchStreamStatus
  db : Store.Db
  run : Option PutBatchRun

/-- The calls of the push loop succeed or fail, and their packets are pulled, as the
network has it; a PutBatch run closes normally or with an exception at any time. -/
inductive Act
  | next_stream
  | pull
  | succeed
  | fail
  | begin (call : Nat)
  | process
  | close
  | abort
deriving Repr, DecidableEq

/-- `get_or_create`. -/
def State.status (s : State) : BatchStreamStatus := s.recorder.getD BatchStreamStatus.create

def State.wait_finish (s : State) : BSS := s.status.wait_finish

namespace Job

def init (job : Job) (db : Store.Db) : State where
  sender :=
    { helper := { BatchStreamHelper.create job.data_type with
        finish_partition := (Upcoming.of job.bin_batches).isNone }
      upcoming := Upcoming.of job.bin_batches
      phase := .streams
      pushed := 0
      saved := false }
  calls := 0
  sent := fun _ => []
  begun := fun _ => false
  recorder := none
  db := db
  run := none

/-- The head of `while cur_retry < max_retry_cnt`; `over` is where the loop leads. -/
def call (job : Job) (s : State) (stream : List (Option Bytes)) (cur_retry : Nat) (stuck : Phase) : State :=
  if cur_retry < job.max_retry_cnt then
    { s with sender := { s.sender with phase := .pushing stream cur_retry s.calls .fresh },
             calls := s.calls + 1 }
  else { s with sender := { s.sender with phase := stuck } }

def next_stream (job : Job) (s : State) : Option State :=
  match s.sender.phase with
  | .streams =>
    if s.sender.helper.finish_partition then
      some { s with sender := { s.sender with phase := .returned } }
    else s.sender.upcoming.map fun (peek,rest) =>
      let (stream,upcoming) := chunk_batch_stream (job.batches_per_stream - 1) peek rest
      let header := s.sender.helper.rs_header
      let helper := { s.sender.helper with
        rs_header := { header with stream_seq := header.stream_seq + 1 }
        finish_partition := upcoming.isNone }
      job.call { s with sender := { s.sender with helper := helper, upcoming := upcoming } }
        stream 0 .streams
  | _ => none

def pull (s : State) : Option State :=
  match s.sender.phase with
  | .pushing stream cur_retry call packets =>
    (packets.next s.sender.helper stream cur_retry).map fun (packet,helper,packets') =>
      { s with
        sender := { s.sender with
          helper := helper
          phase := .pushing stream cur_retry call packets'
          saved := s.sender.saved || (packets == .fresh && cur_retry == 0) }
        sent := Function.update s.sent call (s.sent call ++ [packet]) }
  | _ => none

def succeed (s : State) : Option State :=
  match s.sender.phase with
  | .pushing stream _ _ .exhausted =>
    some { s with sender := { s.sender with
      phase := .streams
      pushed := s.sender.pushed + stream.length
      saved := false } }
  | _ => none

def fail (job : Job) (s : State) : Option State :=
  match s.sender.phase with
  | .pushing stream cur_retry _ _ => some (job.call s stream (cur_retry + 1) .raised)
  | _ => none

def begin (s : State) (call : Nat) : Option State :=
  if s.run.isNone ∧ call < s.calls ∧ s.begun call = false then
    some { s with
      begun := Function.update s.begun call true
      recorder := some s.status
      run := some ⟨call,0,s.db⟩ }
  else none

/-- Leaving the `with` of the adapter commits, with an exception too. -/
def process (job : Job) (s : State) : Option State := do
  let run ← s.run
  let packet ← (s.sent run.call)[run.taken]?
  match put_batch job.accepts s.status run.txn packet with
  | (txn,some bss) => some { s with recorder := some bss, run := some ⟨run.call,run.taken + 1,txn⟩ }
  | (txn,none) => some { s with db := txn, run := none }

def close (s : State) : Option State :=
  s.run.map fun run => { s with db := run.txn, run := none, recorder := some s.status.check_finish }

def abort (s : State) : Option State :=
  s.run.map fun run => { s with db := run.txn, run := none }

def step (job : Job) (s : State) : Act → Option State
  | .next_stream => job.next_stream s
  | .pull => pull s
  | .succeed => succeed s
  | .fail => job.fail s
  | .begin call => begin s call
  | .process => job.process s
  | .close => close s
  | .abort => abort s

def system (job : Job) : System State Act where
  start s := ∃ db, s = job.init db
  step := job.step

/-- A retry begins to pull only in the first stream or after `generate_packet` has saved
its numbers for the stream: its first attempt got as far as the first packet. -/
def resumes (s : State) : Act → Bool
  | .pull =>
    match s.sender.phase with
    | .pushing _ cur_retry _ .fresh => cur_retry == 0 || s.sender.saved || s.sender.pushed == 0
    | _ => true
  | _ => true

end Job

end Eggroll.RollSite
