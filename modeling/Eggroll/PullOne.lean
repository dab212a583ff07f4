import Eggroll.ObjectTransfer
import Eggroll.RollSite

/-! Pulling a transfer (`_pull_one` in `_rollsite_impl_grpc.py`) while its partitions are still
pushed: the wait for the header of partition 0, the polls of every partition's status, and what
follows when all are finished. A request to a partition is one step where its task runs, and the
pushes, the PutBatch runs and these requests interleave in any order. -/
namespace Eggroll.PullOne
open Library Format BatchStream RollSite

/-- A partition as it is pushed and received. `held` is the status of a PutBatch run that is
under way and that `clear_status` has deleted from the recorder. -/
structure Partition where
  transfer : RollSite.State
  held : Option BatchStreamStatus

namespace Partition

def seen (p : Partition) : RollSite.State :=
  { p.transfer with recorder := p.held.or p.transfer.recorder }

def receive (job : Job) (p : Partition) (a : RollSite.Act) : Option Partition :=
  match p.held with
  | none => (job.step p.seen a).map fun t => ⟨t,none⟩
  | some _ => (job.step p.seen a).map fun t =>
    ⟨{ t with recorder := p.transfer.recorder },t.run.bind fun _ => t.recorder⟩

def get_or_create (p : Partition) : Partition :=
  { p with transfer := { p.transfer with recorder := some p.transfer.status } }

def clear_status (p : Partition) : Partition :=
  ⟨{ p.transfer with recorder := none },p.held.or (p.transfer.run.bind fun _ => p.transfer.recorder)⟩

def destroy (p : Partition) : Partition := { p with transfer := { p.transfer with db := ∅ } }

end Partition

/-- The four ways out of `_pull_one` with an exception. -/
inductive Error
  | pull_header_failed
  | no_updated_progress
  | max_try_exceeded
  | raised_by_call
deriving Repr, DecidableEq

inductive Result
  | object (data : Bytes)
  | roll_pair
deriving Repr, DecidableEq

/-- `polling` is one turn of the loop over `cur_retry` with the statuses that have come back, and
`reading` and `destroying` are `rp.get_all()` and `rp.destroy()` for an object. -/
inductive Phase
  | header (wait_time : Nat)
  | polling (cur_retry : Nat) (last_cur_pairs : Int) (pull_status : Nat → Option BSS)
  | reading (read : Nat → Option (List Pair))
  | destroying (result : Bytes) (left : List Nat)
  | registered
  | returned (result : Result)
  | raised (e : Error)

/-- `clearing` is what `clear_future` still has to do. -/
structure Pull where
  data_type : Option String
  clearing : List Nat
  phase : Phase

def Pull.result (pull : Pull) : Option Result :=
  match pull.phase with
  | .returned result => some result
  | _ => none

structure State where
  parts : Nat → Partition
  pull : Pull

inductive Act
  | part (i : Nat) (a : RollSite.Act)
  | pull_get_header
  | pull_get_status (i : Nat)
  | check
  | pull_clear_status (i : Nat)
  | get_all (i : Nat)
  | join (all : List Pair)
  | destroy (i : Nat)
  | finish
  | throw
deriving Repr, DecidableEq

structure Transfer where
  total_partitions : Nat
  job : Nat → Job
  pull_header_interval : Nat
  pull_header_timeout : Nat
  pull_max_retry : Nat

def State.setPart (s : State) (i : Nat) (p : Partition) : State :=
  { s with parts := Function.update s.parts i p }

def State.setPhase (s : State) (phase : Phase) : State := { s with pull := { s.pull with phase := phase } }

/-- The pairs that the tasks of `get_all` have read, partition after partition. -/
def gathered (read : Nat → Option (List Pair)) (total_partitions : Nat) : List Pair :=
  (List.range total_partitions).flatMap fun i => (read i).getD []

namespace Transfer

/-- The head of `for cur_retry in range(self.pull_max_retry)`. -/
def poll (T : Transfer) (cur_retry : Nat) (last_cur_pairs : Int) : Phase :=
  if cur_retry < T.pull_max_retry then .polling cur_retry last_cur_pairs fun _ => none
  else .raised .max_try_exceeded

def await (T : Transfer) (wait_time : Nat) : Phase :=
  if wait_time < T.pull_header_timeout then .header wait_time else .raised .pull_header_failed

def init (T : Transfer) : State where
  parts i := ⟨(T.job i).init ∅,none⟩
  pull := ⟨none,[],T.await 0⟩

/-- Without a header the answer of the task cannot be packed and the source raises; here the pull may
wait on as well, so that there are more runs than the code has. -/
def pull_get_header (T : Transfer) (s : State) : Option State :=
  match s.pull.phase with
  | .header wait_time =>
    let s' := s.setPart 0 (s.parts 0).get_or_create
    match (s.parts 0).transfer.status.rs_header with
    | some header => some { s' with pull := { s.pull with data_type := some header.data_type, phase := T.poll 0 (-1) } }
    | none => some (s'.setPhase (T.await (wait_time + T.pull_header_interval)))
  | _ => none

def pull_get_status (T : Transfer) (s : State) (i : Nat) : Option State :=
  match s.pull.phase with
  | .polling cur_retry last_cur_pairs pull_status =>
    if i < T.total_partitions ∧ (pull_status i).isNone then
      some ((s.setPart i (s.parts i).get_or_create).setPhase (.polling cur_retry last_cur_pairs
        (Function.update pull_status i (some (s.parts i).transfer.wait_finish))))
    else none
  | _ => none

/-- `clear_future` is submitted, and an object is read or the roll pair is registered for gc. -/
def finished (T : Transfer) (s : State) : State :=
  { s with pull := { s.pull with
    clearing := List.range T.total_partitions
    phase := if s.pull.data_type = some "object" then .reading fun _ => none else .registered } }

def check (T : Transfer) (s : State) : Option State :=
  match s.pull.phase with
  | .polling cur_retry last_cur_pairs pull_status =>
    let answers := (List.range T.total_partitions).map pull_status
    if answers.all Option.isSome then
      let all_finished := answers.all fun answer => answer.any BSS.is_finished
      let cur_pairs := (answers.map fun answer => (answer.map BSS.total_pairs).getD 0).sum
      if all_finished then some (T.finished s)
      else if last_cur_pairs = cur_pairs ∧ 0 < cur_pairs then some (s.setPhase (.raised .no_updated_progress))
      else some (s.setPhase (T.poll (cur_retry + 1) cur_pairs))
    else none
  | _ => none

def pull_clear_status (s : State) (i : Nat) : Option State :=
  if i ∈ s.pull.clearing then
    some { s.setPart i (s.parts i).clear_status with
      pull := { s.pull with clearing := s.pull.clearing.erase i } }
  else none

def get_all (T : Transfer) (s : State) (i : Nat) : Option State :=
  match s.pull.phase with
  | .reading read =>
    if i < T.total_partitions ∧ (read i).isNone then
      some (s.setPhase (.reading (Function.update read i (some (s.parts i).transfer.db.toList))))
    else none
  | _ => none

/-- The pairs of the partitions come in whatever order `get_all` yields them. -/
def join (T : Transfer) (s : State) (all : List Pair) : Option State :=
  match s.pull.phase with
  | .reading read =>
    if (∀ i < T.total_partitions, (read i).isSome) ∧ all.Perm (gathered read T.total_partitions) then
      some (s.setPhase (.destroying (ObjectTransfer.join_sorted all) (List.range T.total_partitions)))
    else none
  | _ => none

def destroy (s : State) (i : Nat) : Option State :=
  match s.pull.phase with
  | .destroying result left =>
    if i ∈ left then some ((s.setPart i (s.parts i).destroy).setPhase (.destroying result (left.erase i)))
    else none
  | _ => none

/-- `clear_future.result()` comes last. -/
def finish (s : State) : Option State :=
  if s.pull.clearing = [] then
    match s.pull.phase with
    | .destroying result [] => some (s.setPhase (.returned (.object result)))
    | .registered => some (s.setPhase (.returned .roll_pair))
    | _ => none
  else none

/-- Any call on the way may raise. -/
def throw (s : State) : Option State :=
  match s.pull.phase with
  | .returned _ | .raised _ => none
  | _ => some (s.setPhase (.raised .raised_by_call))

def step (T : Transfer) (s : State) : Act → Option State
  | .part i a =>
    if i < T.total_partitions then ((s.parts i).receive (T.job i) a).map (s.setPart i) else none
  | .pull_get_header => T.pull_get_header s
  | .pull_get_status i => T.pull_get_status s i
  | .check => T.check s
  | .pull_clear_status i => pull_clear_status s i
  | .get_all i => T.get_all s i
  | .join all => T.join s all
  | .destroy i => destroy s i
  | .finish => finish s
  | .throw => throw s

def system (T : Transfer) : System State Act where
  start s := s = T.init
  step := T.step

/-- `Job.resumes` for the push of every partition. -/
def resumes (s : State) : Act → Bool
  | .part i a => Job.resumes (s.parts i).transfer a
  | _ => true

end Transfer
end Eggroll.PullOne
