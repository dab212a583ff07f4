import Mathlib.Data.Fintype.BigOperators
import Eggroll.Library.Channel

/-! `FifoBroker` of `broker.py`: a bounded queue with a count of its active writers.
The methods that look at both take the writers' lock and the queue's own lock one
after the other, so they are cut into their atomic parts here. -/
namespace Eggroll.Broker
open Library

/-- `maxsize` as `queue.Queue` has it: not positive means unbounded. -/
structure FifoBroker (α : Type) where
  queue : List α
  active_writers : Int
  maxsize : Int

namespace FifoBroker
variable {α : Type}

def is_write_finished (b : FifoBroker α) : Bool := b.active_writers ≤ 0

def empty (b : FifoBroker α) : Bool := b.queue.isEmpty

def full (b : FifoBroker α) : Bool := 0 < b.maxsize && b.maxsize ≤ b.queue.length

/-- `Queue.put`; `none` while the queue is full. -/
def queue_put (b : FifoBroker α) (item : α) : Option (FifoBroker α) :=
  if b.full then none else some { b with queue := b.queue ++ [item] }

/-- `Queue.get`; `none` is `queue.Empty`. -/
def queue_get (b : FifoBroker α) : Option (α × FifoBroker α) :=
  match b.queue with
  | [] => none
  | item :: rest => some (item,{ b with queue := rest })

/-- The locked half of `signal_write_finish`. -/
def decrement (b : FifoBroker α) : FifoBroker α := { b with active_writers := b.active_writers - 1 }

end FifoBroker

/-- Where a writer is: about to start the next call (`put` while items are left, then
`signal_write_finish`), or past the call's check of `is_write_finished`. -/
inductive WriterPc (α : Type)
  | calling (rest : List α)
  | putting (item : α) (rest : List α)
  | signalling
  | done
  | raised

/-- Where the reader is in `__next__`: the loop condition and the check in `get` are
`is_closable`, which reads the writers first and the queue second. -/
inductive ReaderPc
  | loopWriters
  | loopQueue
  | getWriters
  | getQueue
  | queueGet
  | stopped
deriving DecidableEq

/-- One atomic part of `__next__`: the broker, where the reader is then, and the item if
the call has returned one. -/
def pull {α : Type} (b : FifoBroker α) : ReaderPc → Option (FifoBroker α × ReaderPc × Option α)
  | .loopWriters => some (b,if b.is_write_finished then .loopQueue else .getWriters,none)
  | .loopQueue => some (b,if b.empty then .stopped else .getWriters,none)
  | .getWriters => some (b,if b.is_write_finished then .getQueue else .queueGet,none)
  -- BrokerClosed, which `__next__` turns into StopIteration
  | .getQueue => some (b,if b.empty then .stopped else .queueGet,none)
  | .queueGet =>
    match b.queue_get with
    -- the timeout: queue.Empty, and the loop goes round
    | none => some (b,.loopWriters,none)
    | some (item,rest) => some (rest,.loopWriters,some item)
  | .stopped => none

/-- Items carry their writer's name for the statements only. -/
structure State (W α : Type) where
  broker : FifoBroker (W × α)
  writer : W → WriterPc α
  reader : ReaderPc
  received : List (W × α)

inductive Label (W : Type)
  | write (w : W)
  | read

section
variable {W α : Type} [DecidableEq W]

def State.setWriter (s : State W α) (w : W) (pc : WriterPc α) : State W α :=
  { s with writer := Function.update s.writer w pc }

private theorem setWriter_writer (s : State W α) (w v : W) (pc : WriterPc α) :
    (s.setWriter w pc).writer v = if v = w then pc else s.writer v :=
  Function.update_apply s.writer w pc v

def writeStep (s : State W α) (w : W) : Option (State W α) :=
  match s.writer w with
  | .calling (item :: rest) =>
    some (s.setWriter w (if s.broker.is_write_finished then .raised else .putting item rest))
  | .calling [] =>
    some (s.setWriter w (if s.broker.is_write_finished then .raised else .signalling))
  | .putting item rest =>
    (s.broker.queue_put (w,item)).map fun b => { s.setWriter w (.calling rest) with broker := b }
  | .signalling => some { s.setWriter w .done with broker := s.broker.decrement }
  | .done => none
  | .raised => none

def readStep (s : State W α) : Option (State W α) :=
  (pull s.broker s.reader).map fun (b,reader,item) =>
    { s with broker := b, reader := reader, received := s.received ++ item.toList }

omit [DecidableEq W] in
theorem readStep_enabled {s : State W α} (going : s.reader ≠ .stopped) :
    ∃ t, readStep s = some t := by
  cases stage : s.reader with
  | stopped => contradiction
  | queueGet => cases items : s.broker.queue <;> simp [readStep,pull,stage,FifoBroker.queue_get,items]
  | _ => simp [readStep,pull,stage]

def step (s : State W α) : Label W → Option (State W α)
  | .write w => writeStep s w
  | .read => readStep s

def initial [Fintype W] (maxsize : Int) (items : W → List α) : State W α :=
  ⟨⟨[],Fintype.card W,maxsize⟩,fun w => .calling (items w),.loopWriters,[]⟩

/-- One reader that iterates and a writer for each `w` that puts its items and then
signals once; the broker is made for that many writers. -/
def system [Fintype W] (maxsize : Int) (items : W → List α) : System (State W α) (Label W) where
  start s := s = initial maxsize items
  step := step

end

def WriterPc.isDone {α : Type} : WriterPc α → Bool
  | .done => true
  | _ => false

def WriterPc.left {α : Type} : WriterPc α → List α
  | .calling rest => rest
  | .putting item rest => item :: rest
  | _ => []

section
variable {W α : Type}

def channelOf (s : State W α) : Channel W α where
  pending w := (s.writer w).left
  closed w := (s.writer w).isDone
  queue := s.broker.queue
  received := s.received
  stopped := s.reader = .stopped

section
variable [DecidableEq W]

private theorem channelOf_setWriter (s : State W α) (w : W) (pc : WriterPc α) :
    channelOf (s.setWriter w pc) = { channelOf s with
      pending := Function.update (channelOf s).pending w pc.left
      closed := Function.update (channelOf s).closed w pc.isDone } := by
  simp only [channelOf,Channel.mk.injEq]
  refine ⟨?_,?_,rfl,rfl,rfl⟩ <;>
  · funext v
    rw [setWriter_writer,Function.update_apply]
    split <;> rfl

private theorem channelOf_move (s : State W α) (w : W) (pc : WriterPc α)
    (left : pc.left = (s.writer w).left) (closed : pc.isDone = (s.writer w).isDone) :
    channelOf (s.setWriter w pc) = channelOf s := by
  rw [channelOf_setWriter,left,closed]
  have pending : (s.writer w).left = (channelOf s).pending w := rfl
  have shut : (s.writer w).isDone = (channelOf s).closed w := rfl
  rw [pending,shut,Function.update_eq_self,Function.update_eq_self]

end

variable [Fintype W]

def active (s : State W α) : Finset W := Finset.univ.filter (fun w => (s.writer w).isDone = false)

private theorem mem_active (s : State W α) (w : W) : w ∈ active s ↔ (s.writer w).isDone = false := by
  simp [active]

/-- No call has raised, the counter counts, and a reader that has seen the writers
finished has seen what stays true. -/
structure Sound (s : State W α) : Prop where
  calm : ∀ w, s.writer w ≠ .raised
  counted : s.broker.active_writers = (active s).card
  seen : s.reader = .loopQueue ∨ s.reader = .getQueue ∨ s.reader = .stopped →
    ∀ w, (s.writer w).isDone = true

private theorem Sound.finished_iff {s : State W α} (sound : Sound s) :
    s.broker.is_write_finished = true ↔ ∀ w, (s.writer w).isDone = true := by
  have none_left : ((active s).card : Int) ≤ 0 ↔ active s = ∅ := by
    rw [← Finset.card_eq_zero]
    omega
  rw [FifoBroker.is_write_finished,sound.counted,decide_eq_true_iff,none_left]
  simp [Finset.eq_empty_iff_forall_notMem,mem_active]

theorem Sound.unfinished {s : State W α} (sound : Sound s) {w : W}
    (before : (s.writer w).isDone = false) : s.broker.is_write_finished = false := by
  cases finished : s.broker.is_write_finished with
  | false => rfl
  | true =>
    have all := sound.finished_iff.mp finished w
    simp [before] at all

theorem initial_sound (maxsize : Int) (items : W → List α) : Sound (initial maxsize items) where
  calm w := by simp [initial]
  counted := by simp [initial,active,WriterPc.isDone]
  seen stage := by simp [initial] at stage

variable [DecidableEq W]

private theorem active_setWriter (s : State W α) (w : W) (pc : WriterPc α)
    (before : (s.writer w).isDone = false) :
    active (s.setWriter w pc) = if pc.isDone then (active s).erase w else active s := by
  ext v
  rw [mem_active,setWriter_writer]
  cases finished : pc.isDone <;> by_cases same : v = w <;>
    simp [same,finished,before,mem_active]

theorem Sound.move {s : State W α} (sound : Sound s) {w : W} {pc : WriterPc α}
    (before : (s.writer w).isDone = false) (after : pc.isDone = false) (calm : pc ≠ .raised) :
    Sound (s.setWriter w pc) := by
  refine ⟨fun v => ?_,?_,fun stage => ?_⟩
  · rw [setWriter_writer]
    split
    · exact calm
    · exact sound.calm v
  · rw [active_setWriter s w pc before,after]
    exact sound.counted
  · have all := sound.seen stage w
    simp [before] at all

private theorem writeStep_matched {s t : State W α} {w : W} (sound : Sound s)
    (stepped : writeStep s w = some t) :
    Sound t ∧ (channelOf t = channelOf s ∨ (channelOf s).step (.put w) = some (channelOf t) ∨
      (channelOf s).step (.close w) = some (channelOf t)) := by
  cases stage : s.writer w with
  | calling rest =>
    have before : (s.writer w).isDone = false := by rw [stage]; rfl
    cases rest with
    | nil =>
      simp only [writeStep,stage,sound.unfinished before,Bool.false_eq_true,if_false,
        Option.some.injEq] at stepped
      subst stepped
      exact ⟨sound.move before rfl (by simp),.inl (channelOf_move s w _ (by rw [stage]; rfl) (by rw [stage]; rfl))⟩
    | cons item rest =>
      simp only [writeStep,stage,sound.unfinished before,Bool.false_eq_true,if_false,
        Option.some.injEq] at stepped
      subst stepped
      exact ⟨sound.move before rfl (by simp),.inl (channelOf_move s w _ (by rw [stage]; rfl) (by rw [stage]; rfl))⟩
  | putting item rest =>
    have before : (s.writer w).isDone = false := by rw [stage]; rfl
    simp only [writeStep,stage,FifoBroker.queue_put,Option.map_eq_some_iff,
      Option.ite_none_left_eq_some,Option.some.injEq] at stepped
    obtain ⟨b,⟨_,rfl⟩,rfl⟩ := stepped
    have moved : Sound (s.setWriter w (.calling rest)) := sound.move before rfl (by simp)
    refine ⟨⟨moved.calm,moved.counted,moved.seen⟩,.inr (.inl ?_)⟩
    have shut : (channelOf s).closed w = false := before
    have todo : (channelOf s).pending w = item :: rest := by simp only [channelOf,stage]; rfl
    have view : channelOf { s.setWriter w (.calling rest) with
        broker := { s.broker with queue := s.broker.queue ++ [(w,item)] } } =
        { channelOf (s.setWriter w (.calling rest)) with
          queue := (channelOf s).queue ++ [(w,item)] } := rfl
    have open_ : Function.update (channelOf s).closed w false = (channelOf s).closed :=
      Function.update_eq_self_iff.mpr shut.symm
    rw [view,channelOf_setWriter]
    simp only [Channel.step,shut,todo,WriterPc.left,WriterPc.isDone,open_]
  | signalling =>
    have before : (s.writer w).isDone = false := by rw [stage]; rfl
    simp only [writeStep,stage,Option.some.injEq] at stepped
    subst stepped
    have todo : (channelOf s).pending w = [] := by simp only [channelOf,stage]; rfl
    refine ⟨⟨fun v => ?_,?_,fun seen => ?_⟩,.inr (.inr ?_)⟩
    · simp only [setWriter_writer]
      split
      · simp
      · exact sound.calm v
    · have listed : w ∈ active s := (mem_active s w).mpr before
      have size := Finset.card_erase_add_one listed
      change s.broker.active_writers - 1 = ((active (s.setWriter w .done)).card : Int)
      rw [active_setWriter s w .done before,sound.counted]
      simp only [WriterPc.isDone,if_true]
      omega
    · have all := sound.seen seen w
      simp [before] at all
    · have same : Function.update (channelOf s).pending w [] = (channelOf s).pending :=
        Function.update_eq_self_iff.mpr todo.symm
      have view : channelOf { s.setWriter w .done with broker := s.broker.decrement } =
          channelOf (s.setWriter w .done) := rfl
      rw [view,channelOf_setWriter]
      simp only [Channel.step,todo,List.isEmpty_nil,if_true,WriterPc.left,WriterPc.isDone,same]
  | done => simp [writeStep,stage] at stepped
  | raised => simp [writeStep,stage] at stepped

private theorem readStep_matched {s t : State W α} (sound : Sound s) (stepped : readStep s = some t) :
    Sound t ∧ (channelOf t = channelOf s ∨ (channelOf s).step .take = some (channelOf t) ∨
      (channelOf s).step .stop = some (channelOf t)) := by
  obtain ⟨calm,counted,seen⟩ := sound
  cases stage : s.reader with
  | loopWriters | getWriters =>
    simp only [readStep,pull,stage,Option.map_some,Option.toList,List.append_nil,Option.some.injEq] at stepped
    subst stepped
    cases finished : s.broker.is_write_finished with
    | true =>
      have all := (Sound.finished_iff ⟨calm,counted,seen⟩).mp finished
      exact ⟨⟨calm,counted,fun _ => all⟩,.inl (by simp [channelOf,stage])⟩
    | false => exact ⟨⟨calm,counted,fun later => by simp at later⟩,.inl (by simp [channelOf,stage])⟩
  | loopQueue | getQueue =>
    have all := seen (by simp [stage])
    simp only [readStep,pull,stage,Option.map_some,Option.toList,List.append_nil,Option.some.injEq] at stepped
    subst stepped
    refine ⟨⟨calm,counted,fun _ => all⟩,?_⟩
    cases drained : s.broker.empty with
    | true =>
      have allowed : (∀ w, (channelOf s).closed w = true) ∧ (channelOf s).queue.isEmpty = true :=
        ⟨all,drained⟩
      refine .inr (.inr ?_)
      rw [Channel.step,if_pos allowed]
      simp [channelOf]
    | false => exact .inl (by simp [channelOf,stage])
  | queueGet =>
    cases items : s.broker.queue with
    | nil =>
      simp only [readStep,pull,stage,Option.map_some,Option.toList,List.append_nil,FifoBroker.queue_get,items,Option.some.injEq] at stepped
      subst stepped
      exact ⟨⟨calm,counted,fun later => by simp at later⟩,.inl (by simp [channelOf,stage])⟩
    | cons item rest =>
      simp only [readStep,pull,stage,Option.map_some,Option.toList,FifoBroker.queue_get,items,Option.some.injEq] at stepped
      subst stepped
      refine ⟨⟨calm,counted,fun later => by simp at later⟩,.inr (.inl ?_)⟩
      simp [Channel.step,channelOf,items,stage]
  | stopped => simp [readStep,pull,stage] at stepped

/-- The broker, with its checks in two reads and its signals in two locked steps,
refines the channel whose every operation is one step. -/
def refines (maxsize : Int) (items : W → List α) :
    System.Simulation (system maxsize items) (Channel.system items) where
  related s c := c = channelOf s ∧ Sound s
  initial := by
    rintro _ rfl
    exact ⟨_,rfl,by simp [initial,channelOf,Channel.initial,WriterPc.left,WriterPc.isDone],
      initial_sound maxsize items⟩
  matched := by
    rintro s a t _ ⟨rfl,sound⟩ stepped
    cases a with
    | write w =>
      obtain ⟨next,same | put | close⟩ := writeStep_matched sound stepped
      · exact ⟨[],_,System.run_nil _ _,same.symm,next⟩
      · exact ⟨[.put w],_,.single put,rfl,next⟩
      · exact ⟨[.close w],_,.single close,rfl,next⟩
    | read =>
      obtain ⟨next,same | take | stop⟩ := readStep_matched sound stepped
      · exact ⟨[],_,System.run_nil _ _,same.symm,next⟩
      · exact ⟨[.take],_,.single take,rfl,next⟩
      · exact ⟨[.stop],_,.single stop,rfl,next⟩

def WriterPc.rank : WriterPc α → Nat
  | .calling rest => 2 * rest.length + 2
  | .putting _ rest => 2 * rest.length + 3
  | .signalling => 1
  | .done => 0
  | .raised => 0

def ReaderPc.toItem : ReaderPc → Nat
  | .loopWriters => 5
  | .loopQueue => 4
  | .getWriters => 3
  | .getQueue => 2
  | .queueGet => 1
  | .stopped => 0

def ReaderPc.toStop : ReaderPc → Nat
  | .queueGet => 3
  | .loopWriters | .getWriters => 2
  | .loopQueue | .getQueue => 1
  | .stopped => 0

def readerRank (s : State W α) : Nat :=
  if s.broker.empty = false then s.reader.toItem
  else if ∀ w, (s.writer w).isDone = true then s.reader.toStop
  else 0

def measure (s : State W α) : Nat :=
  6 * (2 * ∑ w, (s.writer w).rank + s.broker.queue.length) + readerRank s

omit [DecidableEq W] in
theorem readerRank_lt (s : State W α) : readerRank s < 6 := by
  unfold readerRank
  cases s.reader <;> split_ifs <;> decide

private theorem rank_setWriter (s : State W α) (w : W) (pc : WriterPc α) :
    ∑ v, ((s.setWriter w pc).writer v).rank + (s.writer w).rank =
      ∑ v, (s.writer v).rank + pc.rank := by
  rw [← Finset.add_sum_erase _ _ (Finset.mem_univ w),
    ← Finset.add_sum_erase _ (fun v => (s.writer v).rank) (Finset.mem_univ w)]
  have others : ∑ v ∈ Finset.univ.erase w, ((s.setWriter w pc).writer v).rank =
      ∑ v ∈ Finset.univ.erase w, (s.writer v).rank := by
    apply Finset.sum_congr rfl
    intro v listed
    rw [setWriter_writer,if_neg (Finset.ne_of_mem_erase listed)]
  rw [others,setWriter_writer,if_pos rfl]
  omega

theorem measure_lt {s t : State W α} {w : W} {pc : WriterPc α}
    (moved : t.writer = (s.setWriter w pc).writer) (nearer : pc.rank < (s.writer w).rank)
    (queued : t.broker.queue.length ≤ s.broker.queue.length + 1) : measure t < measure s := by
  have small := readerRank_lt t
  have ranks := rank_setWriter s w pc
  rw [← moved] at ranks
  unfold measure
  omega

theorem writeStep_measure {s t : State W α} {w : W} (sound : Sound s)
    (stepped : writeStep s w = some t) : measure t < measure s := by
  cases stage : s.writer w with
  | calling rest =>
    have unfinished := sound.unfinished (w := w) (by rw [stage]; rfl)
    cases rest with
    | nil =>
      simp only [writeStep,stage,unfinished,Bool.false_eq_true,if_false,Option.some.injEq] at stepped
      subst stepped
      exact measure_lt rfl (by rw [stage]; simp [WriterPc.rank]) (Nat.le_succ _)
    | cons item rest =>
      simp only [writeStep,stage,unfinished,Bool.false_eq_true,if_false,Option.some.injEq] at stepped
      subst stepped
      exact measure_lt rfl (by rw [stage]; simp [WriterPc.rank]; omega) (Nat.le_succ _)
  | putting item rest =>
    simp only [writeStep,stage,FifoBroker.queue_put,Option.map_eq_some_iff,
      Option.ite_none_left_eq_some,Option.some.injEq] at stepped
    obtain ⟨b,⟨_,rfl⟩,rfl⟩ := stepped
    exact measure_lt rfl (by rw [stage]; simp [WriterPc.rank]) (by simp)
  | signalling =>
    simp only [writeStep,stage,Option.some.injEq] at stepped
    subst stepped
    exact measure_lt rfl (by rw [stage]; simp [WriterPc.rank]) (Nat.le_succ _)
  | done => simp [writeStep,stage] at stepped
  | raised => simp [writeStep,stage] at stepped

theorem writeStep_enabled {s : State W α} {w : W} (sound : Sound s) (room : s.broker.full = false)
    (before : (s.writer w).isDone = false) : ∃ t, writeStep s w = some t := by
  cases stage : s.writer w with
  | calling rest => cases rest <;> simp [writeStep,stage]
  | putting item rest => simp [writeStep,stage,FifoBroker.queue_put,room]
  | signalling => simp [writeStep,stage]
  | done => simp [stage,WriterPc.isDone] at before
  | raised => exact absurd stage (sound.calm w)

omit [DecidableEq W] in
theorem readStep_measure {s t : State W α} (sound : Sound s)
    (ready : s.broker.empty = false ∨ ∀ w, (s.writer w).isDone = true)
    (stepped : readStep s = some t) : t.reader = .stopped ∨ measure t < measure s := by
  cases items : s.broker.queue with
  | nil =>
    have empty : s.broker.empty = true := by simp [FifoBroker.empty,items]
    have all := ready.resolve_left (by simp [empty])
    have finished := sound.finished_iff.mpr all
    cases stage : s.reader <;>
      simp only [readStep,pull,stage,Option.map_some,Option.map_none,Option.toList,List.append_nil,finished,empty,FifoBroker.queue_get,items,if_true,
        Option.some.injEq,reduceCtorEq] at stepped <;>
      subst stepped <;>
      simp [measure,readerRank,empty,all,stage,ReaderPc.toStop]
  | cons item rest =>
    have full : s.broker.empty = false := by simp [FifoBroker.empty,items]
    cases stage : s.reader with
    | queueGet =>
      simp only [readStep,pull,stage,Option.map_some,Option.toList,FifoBroker.queue_get,items,Option.some.injEq] at stepped
      subst stepped
      have small := readerRank_lt { s with
        broker := { s.broker with queue := rest },
        received := s.received ++ [item],
        reader := .loopWriters }
      right
      simp only [measure,items,List.length_cons] at small ⊢
      omega
    | stopped => simp [readStep,pull,stage] at stepped
    | _ =>
      simp only [readStep,pull,stage,Option.map_some,Option.toList,List.append_nil,full,Bool.false_eq_true,if_false,Option.some.injEq] at stepped
      subst stepped
      simp only [measure,readerRank,full,stage,if_true]
      cases s.broker.is_write_finished <;> simp [ReaderPc.toItem]

omit [DecidableEq W] in
theorem readStep_waits {s t : State W α} (sound : Sound s) (empty : s.broker.empty = true)
    (waiting : ¬ ∀ w, (s.writer w).isDone = true) (stepped : readStep s = some t) :
    t.broker = s.broker ∧ t.writer = s.writer ∧ measure t = measure s := by
  have items : s.broker.queue = [] := List.isEmpty_iff.mp empty
  have unfinished : s.broker.is_write_finished = false := by
    rw [← Bool.not_eq_true,sound.finished_iff]
    exact waiting
  have rank (reader : ReaderPc) : readerRank { s with reader := reader } = 0 := by
    simp only [readerRank,empty,Bool.true_eq_false,if_false,if_neg waiting]
  have same (reader : ReaderPc) : measure { s with reader := reader } = measure s := by
    rw [measure,measure,rank,show readerRank s = 0 from rank s.reader]
  cases stage : s.reader with
  | loopQueue | getQueue | stopped => exact absurd (sound.seen (by simp [stage])) waiting
  | loopWriters | getWriters =>
    simp only [readStep,pull,stage,Option.map_some,Option.toList,List.append_nil,unfinished,Bool.false_eq_true,if_false,Option.some.injEq] at stepped
    subst stepped
    exact ⟨rfl,rfl,same _⟩
  | queueGet =>
    simp only [readStep,pull,stage,Option.map_some,Option.toList,List.append_nil,FifoBroker.queue_get,items,Option.some.injEq] at stepped
    subst stepped
    exact ⟨rfl,rfl,same _⟩

theorem step_sound {s t : State W α} {a : Label W} (sound : Sound s) (stepped : step s a = some t) :
    Sound t := by
  cases a with
  | write w => exact (writeStep_matched sound stepped).1
  | read => exact (readStep_matched sound stepped).1

open Classical in
/-- Who brings the reader nearer to its end: some writer that has not signalled while
there is nothing to read, and else the reader. -/
noncomputable def helpful (queue : List (W × α)) (writer : W → WriterPc α) : Label W :=
  if waiting : queue = [] ∧ ∃ w, (writer w).isDone = false then .write waiting.2.choose else .read

theorem helpful_enabled {s : State W α} (sound : Sound s) (going : s.reader ≠ .stopped) :
    ∃ t, step s (helpful s.broker.queue s.writer) = some t ∧
      (t.reader = .stopped ∨ measure t < measure s) := by
  by_cases waiting : s.broker.queue = [] ∧ ∃ w, (s.writer w).isDone = false
  · have room : s.broker.full = false := by
      simp only [FifoBroker.full,waiting.1,List.length_nil]
      grind
    rw [helpful,dif_pos waiting]
    obtain ⟨t,stepped⟩ := writeStep_enabled sound room waiting.2.choose_spec
    exact ⟨t,stepped,.inr (writeStep_measure sound stepped)⟩
  · rw [helpful,dif_neg waiting]
    obtain ⟨t,stepped⟩ := readStep_enabled going
    refine ⟨t,stepped,readStep_measure sound ?_ stepped⟩
    by_cases items : s.broker.queue = []
    · right
      intro w
      by_contra before
      exact waiting ⟨items,w,by simpa using before⟩
    · left
      simpa [FifoBroker.empty] using items

noncomputable def progress (maxsize : Int) (items : W → List α) :
    System.Progress (system maxsize items) Sound (fun s => s.reader = .stopped) where
  measure := measure
  helpful s := helpful s.broker.queue s.writer
  preserved _ _ _ sound stepped := step_sound sound stepped
  enabled _ sound going := helpful_enabled sound going
  bounded s a t sound going stepped := by
    cases a with
    | write w => exact .inr (.inl (writeStep_measure sound stepped))
    | read =>
      by_cases ready : s.broker.empty = false ∨ ∀ w, (s.writer w).isDone = true
      · exact (readStep_measure sound ready stepped).imp_right .inl
      · rw [not_or,Bool.not_eq_false] at ready
        obtain ⟨broker,writer,same⟩ := readStep_waits sound ready.1 ready.2 stepped
        exact .inr (.inr ⟨same,by rw [broker,writer]⟩)

/-- In every state of every interleaving no call has raised, the count of active writers
is not negative and each writer's items arrive in order; a reader that has stopped has
them all, after every writer signalled; and in every fair run the reader stops. -/
theorem fifo_broker (maxsize : Int) (items : W → List α) :
    (∀ s, (system maxsize items).Reachable s →
      (∀ w, s.writer w ≠ .raised) ∧ 0 ≤ s.broker.active_writers ∧
      (∀ w, valuesOf w s.received <+: items w) ∧
      (s.reader = .stopped → (∀ w, s.writer w = .done) ∧ s.broker.queue = [] ∧
        ∀ w, valuesOf w s.received = items w)) ∧
    ∀ schedule, System.Fair schedule →
      ∃ n, ((system maxsize items).trace (initial maxsize items) schedule n).reader = .stopped := by
  constructor
  · intro s reached
    obtain ⟨_,reachedC,rfl,sound⟩ := (refines maxsize items).reachable reached
    have holds := Channel.reachable_invariant reachedC
    refine ⟨sound.calm,by rw [sound.counted]; omega,fun w => holds.received_prefix w,fun stop => ?_⟩
    have stopped : (channelOf s).stopped = true := decide_eq_true stop
    refine ⟨fun w => ?_,(holds.drained stopped).2,fun w => holds.received_all stopped w⟩
    have signalled := sound.seen (.inr (.inr stop)) w
    cases stage : s.writer w <;> simp [stage,WriterPc.isDone] at signalled ⊢
  · intro schedule fair
    exact (progress maxsize items).reaches (initial_sound maxsize items) fair

end

def twoWriters (w : Bool) : List Nat := if w then [1,2] else [3]

/-- Two writers on a queue of one place; the reader looks at the queue both before and
after the last writer has signalled. -/
theorem fifo_broker_two_writers :
    ∃ s, (system 1 twoWriters).Reachable s ∧ s.reader = .stopped ∧
      ∀ w, valuesOf w s.received = twoWriters w := by
  let labels : List (Label Bool) :=
    [.write true,.write true,.write false,.read,.read,.read,.write false,.write false,.write false,.read,.read,.read,
      .write true,.write true,.write true,.write true,.read,.read,.read,.read,.read,.read,.read]
  have reached : ∃ s, (system 1 twoWriters).Run (initial 1 twoWriters) labels s ∧
      s.reader = .stopped := ⟨_,rfl,rfl⟩
  obtain ⟨s,run,stop⟩ := reached
  have member : (system 1 twoWriters).Reachable s := ⟨_,labels,rfl,run⟩
  exact ⟨s,member,stop,(((fifo_broker 1 twoWriters).1 s member).2.2.2 stop).2.2⟩

end Eggroll.Broker
