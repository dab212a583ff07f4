import Eggroll.BatchBroker
import Eggroll.Library.System

/-! A writing and a reading `BatchBroker` over one `FifoBroker` with a single writer. The
writer puts a list of items one by one and signals; a `put` that hands a batch over may
raise `queue.Full`, and the caller tries again or leaves the item out. -/
namespace Eggroll.BatchBroker
open Library Broker
variable {α : Type}

/-- `accepted` is history: the items whose `put` has returned. -/
structure State (α : Type) where
  broker : FifoBroker (List α)
  todo : List α
  writer : BatchWriter α
  ended : Bool
  accepted : List α
  reader : BatchReader α
  received : List α

/-- A part of the writer's call, a `queue.Full` out of it, or a part of the reader's call. -/
inductive Label
  | write
  | full (again : Bool)
  | read
deriving DecidableEq

/-- A part of `put` of the next item, or of `signal_write_finish` after the last. -/
def writeStep (batch_size : Int) (s : State α) : Option (State α) :=
  if s.ended then none
  else
    match s.todo with
    | item :: rest =>
      (s.writer.put_step batch_size s.broker item).map fun (w,b,returned) =>
        { s with
          broker := b
          writer := w
          todo := if returned then rest else s.todo
          accepted := s.accepted ++ if returned then [item] else [] }
    | [] =>
      (s.writer.close_step s.broker).map fun (w,b,returned) =>
        { s with broker := b, writer := w, ended := returned }

/-- The `put` below does not block, or its timeout is over; `signal_write_finish` blocks. -/
def fullStep (s : State α) (again : Bool) : Option (State α) :=
  match s.todo with
  | _ :: rest =>
    if s.writer.checked && s.broker.full then
      some { s with
        writer := { s.writer with checked := false }
        todo := if again then s.todo else rest }
    else none
  | [] => none

def readStep (s : State α) : Option (State α) :=
  (s.reader.next_step s.broker).map fun (r,b,item) =>
    { s with broker := b, reader := r, received := s.received ++ item.toList }

def step (batch_size : Int) (s : State α) : Label → Option (State α)
  | .write => writeStep batch_size s
  | .full again => fullStep s again
  | .read => readStep s

def initial (maxsize : Int) (items : List α) : State α :=
  ⟨⟨[],1,maxsize⟩,items,⟨[],false⟩,false,[],⟨[],.loopWriters⟩,[]⟩

def system (batch_size maxsize : Int) (items : List α) : System (State α) Label where
  start s := s = initial maxsize items
  step := step batch_size

structure Sound (items : List α) (s : State α) : Prop where
  writers : s.broker.active_writers = if s.ended then 0 else 1
  conserved : s.received ++ (s.reader.got ++ s.broker.queue.flatten) ++ s.writer.batch = s.accepted
  reader : s.reader.Sound s.broker
  closed : s.ended = true → s.writer.batch = [] ∧ s.todo = []
  chosen : (s.accepted ++ s.todo).Sublist items

theorem initial_sound (maxsize : Int) (items : List α) : Sound items (initial maxsize items) where
  writers := rfl
  conserved := rfl
  reader := ⟨⟨fun later => by simp [initial] at later,fun stop => by simp [initial] at stop⟩,
    fun left => by simp [initial] at left⟩
  closed ended := by simp [initial] at ended
  chosen := List.Sublist.refl _

private theorem writeStep_sound {batch_size : Int} {items : List α} {s t : State α} (sound : Sound items s)
    (stepped : writeStep batch_size s = some t) : Sound items t := by
  obtain ⟨writers,conserved,reader,closed,chosen⟩ := sound
  unfold writeStep at stepped
  cases ended : s.ended with
  | true => simp [ended] at stepped
  | false =>
    have active : s.broker.active_writers = 1 := by rw [writers,ended]; rfl
    rw [ended] at stepped
    simp only [Bool.false_eq_true,if_false] at stepped
    split at stepped
    · rename_i item rest todo
      simp only [Option.map_eq_some_iff,Prod.exists] at stepped
      obtain ⟨w,b,returned,put,rfl⟩ := stepped
      obtain ⟨same,held⟩ := BatchWriter.put_step_spec put
      refine ⟨?_,?_,reader.of_active (by omega) _,fun done => by simp at done,?_⟩
      · simp [same,active]
      · simp only [← conserved,List.append_assoc] at held ⊢
        rw [held]
      · cases returned with
        | false => simpa using chosen
        | true => simpa [todo] using chosen
    · rename_i todo
      simp only [Option.map_eq_some_iff,Prod.exists] at stepped
      obtain ⟨w,b,returned,close,rfl⟩ := stepped
      obtain ⟨held,going,done⟩ := BatchWriter.close_step_spec close
      refine ⟨?_,?_,reader.of_active (by omega) _,?_,chosen⟩
      · cases returned with
        | false => simp [going rfl,active]
        | true =>
          rw [(done rfl).2]
          change s.broker.active_writers - 1 = 0
          omega
      · simp only [← conserved,List.append_assoc,held]
      · rintro rfl
        exact ⟨(done rfl).1,todo⟩

private theorem fullStep_sound {items : List α} {s t : State α} {again : Bool} (sound : Sound items s)
    (stepped : fullStep s again = some t) : Sound items t := by
  obtain ⟨writers,conserved,reader,closed,chosen⟩ := sound
  unfold fullStep at stepped
  split at stepped
  · rename_i item rest todo
    simp only [Option.ite_none_right_eq_some,Option.some.injEq] at stepped
    obtain ⟨_,rfl⟩ := stepped
    refine ⟨writers,conserved,reader,fun ended => ?_,?_⟩
    · have none_left := (closed ended).2
      rw [todo] at none_left
      contradiction
    · cases again with
      | true => exact chosen
      | false =>
        rw [todo] at chosen
        exact (List.Sublist.append (List.Sublist.refl _) (List.sublist_cons_self _ _)).trans chosen
  · contradiction

private theorem readStep_sound {items : List α} {s t : State α} (sound : Sound items s)
    (stepped : readStep s = some t) : Sound items t := by
  obtain ⟨writers,conserved,reader,closed,chosen⟩ := sound
  simp only [readStep,Option.map_eq_some_iff,Prod.exists] at stepped
  obtain ⟨r,b,item,next,rfl⟩ := stepped
  obtain ⟨reader',same,moved⟩ := BatchReader.next_step_spec reader next
  refine ⟨same.trans writers,?_,reader',closed,chosen⟩
  rw [← conserved,← moved]
  simp only [List.append_assoc]

theorem step_sound {batch_size : Int} {items : List α} {s t : State α} {a : Label} (sound : Sound items s)
    (stepped : step batch_size s a = some t) : Sound items t := by
  cases a with
  | write => exact writeStep_sound sound stepped
  | full again => exact fullStep_sound sound stepped
  | read => exact readStep_sound sound stepped

theorem Sound.open_ {items : List α} {s : State α} (sound : Sound items s) (going : s.ended = false) :
    s.broker.is_write_finished = false := by
  have one := sound.writers
  rw [going] at one
  simp [FifoBroker.is_write_finished,one]

/-- The steps the writer still has to take; while the queue is full its check of the
broker brings it no nearer. -/
def writerRank (s : State α) : Nat :=
  if s.ended then 0
  else 4 * s.todo.length + 2 + (if s.writer.batch = [] then 0 else 2) -
    if s.writer.checked && !s.broker.full then 1 else 0

def readerRank (s : State α) : Nat :=
  if s.reader.got ≠ [] then 0
  else if s.broker.empty = false then s.reader.pc.toItem
  else if s.ended then s.reader.pc.toStop
  else 0

def onTheWay (s : State α) : Nat :=
  s.writer.batch.length + s.broker.queue.flatten.length + s.reader.got.length

def measure (s : State α) : Nat :=
  6 * (2 * writerRank s + s.broker.queue.length + onTheWay s) + readerRank s

theorem readerRank_lt (s : State α) : readerRank s < 6 := by
  unfold readerRank
  cases s.reader.pc <;> split_ifs <;> decide

theorem measure_lt {s t : State α}
    (less : 2 * writerRank t + t.broker.queue.length + onTheWay t <
      2 * writerRank s + s.broker.queue.length + onTheWay s) : measure t < measure s := by
  have small := readerRank_lt t
  unfold measure
  omega

private theorem writeStep_cases {batch_size : Int} {s t : State α} (stepped : writeStep batch_size s = some t) :
    s.ended = false ∧
      ((s.writer.checked = false ∧ t = { s with writer := { s.writer with checked := true } }) ∨
      (s.writer.checked = true ∧ s.broker.full = false ∧ s.writer.batch ≠ [] ∧
        t = { s with
          broker := { s.broker with queue := s.broker.queue ++ [s.writer.batch] }
          writer := ⟨[],false⟩ }) ∨
      (∃ item rest, s.todo = item :: rest ∧ t = { s with
          writer := ⟨s.writer.batch ++ [item],false⟩
          todo := rest
          accepted := s.accepted ++ [item] }) ∨
      (s.todo = [] ∧ s.writer.batch = [] ∧
        t = { s with broker := s.broker.decrement, writer := ⟨[],false⟩, ended := true })) := by
  have committed {w : BatchWriter α} {b : FifoBroker (List α)} {returned : Bool}
      (commit : s.writer.commit_step s.broker = some (w,b,returned)) : returned = false ∧
      ((s.writer.checked = false ∧ w = { s.writer with checked := true } ∧ b = s.broker) ∨
        (s.writer.checked = true ∧ s.broker.full = false ∧ w = ⟨[],false⟩ ∧
          b = { s.broker with queue := s.broker.queue ++ [s.writer.batch] })) := by
    unfold BatchWriter.commit_step at commit
    split at commit
    · rename_i checked
      simp only [FifoBroker.queue_put,Option.map_eq_some_iff,Option.ite_none_left_eq_some,
        Option.some.injEq,Prod.mk.injEq] at commit
      obtain ⟨_,⟨room,rfl⟩,rfl,rfl,rfl⟩ := commit
      exact ⟨rfl,.inr ⟨checked,by simpa using room,rfl,rfl⟩⟩
    · rename_i unchecked
      simp only [BatchWriter.check,Option.map_eq_some_iff,Option.ite_none_left_eq_some,
        Option.some.injEq,Prod.mk.injEq] at commit
      obtain ⟨_,⟨_,rfl⟩,rfl,rfl,rfl⟩ := commit
      exact ⟨rfl,.inl ⟨by simpa using unchecked,rfl,rfl⟩⟩
  unfold writeStep at stepped
  cases ended : s.ended with
  | true => simp [ended] at stepped
  | false =>
    rw [ended] at stepped
    simp only [Bool.false_eq_true,if_false] at stepped
    refine ⟨rfl,?_⟩
    split at stepped
    · rename_i item rest todo
      simp only [Option.map_eq_some_iff,Prod.exists] at stepped
      obtain ⟨w,b,returned,put,rfl⟩ := stepped
      unfold BatchWriter.put_step at put
      split at put
      · rename_i some_batch
        obtain ⟨rfl,⟨unchecked,rfl,rfl⟩ | ⟨checked,room,rfl,rfl⟩⟩ := committed put
        · exact .inl ⟨unchecked,by simp⟩
        · exact .inr (.inl ⟨checked,room,some_batch.2,by simp⟩)
      · simp only [Option.some.injEq,Prod.mk.injEq] at put
        obtain ⟨rfl,rfl,rfl⟩ := put
        exact .inr (.inr (.inl ⟨item,rest,todo,by simp⟩))
    · rename_i todo
      simp only [Option.map_eq_some_iff,Prod.exists] at stepped
      obtain ⟨w,b,returned,close,rfl⟩ := stepped
      unfold BatchWriter.close_step at close
      split at close
      · rename_i some_batch
        obtain ⟨rfl,⟨unchecked,rfl,rfl⟩ | ⟨checked,room,rfl,rfl⟩⟩ := committed close
        · exact .inl ⟨unchecked,by simp⟩
        · exact .inr (.inl ⟨checked,room,some_batch,by simp⟩)
      · rename_i empty
        rw [ne_eq,not_not] at empty
        split at close
        · simp only [Option.some.injEq,Prod.mk.injEq] at close
          obtain ⟨rfl,rfl,rfl⟩ := close
          exact .inr (.inr (.inr ⟨todo,empty,rfl⟩))
        · rename_i unchecked
          simp only [BatchWriter.check,Option.map_eq_some_iff,Option.ite_none_left_eq_some,
            Option.some.injEq,Prod.mk.injEq] at close
          obtain ⟨_,⟨_,rfl⟩,rfl,rfl,rfl⟩ := close
          exact .inl ⟨by simpa using unchecked,by simp⟩

/-- Who brings the reader nearer to its end: itself, unless there is nothing to read. -/
def helpful (got : List α) (queue : List (List α)) (ended : Bool) : Label :=
  if got.isEmpty && queue.isEmpty && !ended then .write else .read

theorem writeStep_measure {batch_size : Int} {s t : State α} (stepped : writeStep batch_size s = some t) :
    measure t < measure s ∨ measure t = measure s ∧ s.broker.full = true ∧ t.broker = s.broker ∧
      t.reader = s.reader ∧ t.ended = s.ended := by
  obtain ⟨going,⟨unchecked,rfl⟩ | ⟨checked,room,some_batch,rfl⟩ | ⟨item,rest,todo,rfl⟩ | ⟨todo,empty,rfl⟩⟩ :=
    writeStep_cases stepped
  · cases full : s.broker.full with
    | true => exact .inr ⟨by simp [measure,writerRank,readerRank,onTheWay,full],rfl,rfl,rfl,rfl⟩
    | false =>
      apply Or.inl
      apply measure_lt
      simp only [writerRank,onTheWay,going,unchecked,full,Bool.not_false,Bool.and_true,
        Bool.false_eq_true,if_false,if_true]
      omega
  · apply Or.inl
    apply measure_lt
    simp only [writerRank,onTheWay,going,checked,room,some_batch,Bool.not_false,Bool.and_true,
      Bool.false_eq_true,if_false,if_true,Bool.false_and,List.flatten_append,List.length_append,
      List.flatten_singleton,List.length_singleton,List.length_nil]
    omega
  · apply Or.inl
    apply measure_lt
    have bound : (if (s.writer.checked && !s.broker.full) = true then 1 else 0) ≤ 1 := by split <;> omega
    simp only [writerRank,onTheWay,going,todo,Bool.false_eq_true,if_false,Bool.false_and,
      List.length_append,List.length_cons,List.length_nil,List.append_eq_nil_iff,List.cons_ne_nil,
      and_false]
    omega
  · apply Or.inl
    apply measure_lt
    have bound : (if (s.writer.checked && !s.broker.full) = true then 1 else 0) ≤ 1 := by split <;> omega
    simp only [writerRank,onTheWay,going,todo,empty,Bool.false_eq_true,if_false,if_true,
      FifoBroker.decrement,List.length_nil]
    omega

private theorem fullStep_measure {s t : State α} {again : Bool} (stepped : fullStep s again = some t) :
    measure t < measure s ∨ measure t = measure s ∧ s.broker.full = true ∧ t.broker = s.broker ∧
      t.reader = s.reader ∧ t.ended = s.ended := by
  unfold fullStep at stepped
  split at stepped
  · rename_i item rest todo
    simp only [Option.ite_none_right_eq_some,Option.some.injEq,Bool.and_eq_true] at stepped
    obtain ⟨⟨checked,full⟩,rfl⟩ := stepped
    cases again with
    | true => exact .inr ⟨by simp [measure,writerRank,readerRank,onTheWay,full],full,rfl,rfl,rfl⟩
    | false =>
      cases ended : s.ended with
      | true =>
        refine .inr ⟨?_,full,rfl,rfl,rfl⟩
        simp [measure,writerRank,readerRank,onTheWay,ended]
      | false =>
        apply Or.inl
        apply measure_lt
        simp only [writerRank,onTheWay,ended,todo,full,Bool.false_eq_true,if_false,Bool.not_true,
          Bool.and_false,List.length_cons]
        omega
  · contradiction

theorem readStep_measure {items : List α} {s t : State α} (sound : Sound items s)
    (ready : helpful s.reader.got s.broker.queue s.ended = .read) (stepped : readStep s = some t) :
    t.reader.pc = .stopped ∨ measure t < measure s := by
  simp only [readStep,Option.map_eq_some_iff,Prod.exists] at stepped
  obtain ⟨r,b,item,next,rfl⟩ := stepped
  unfold BatchReader.next_step at next
  split at next
  · rename_i x rest got
    simp only [Option.some.injEq,Prod.mk.injEq] at next
    obtain ⟨rfl,rfl,rfl⟩ := next
    apply Or.inr
    apply measure_lt
    simp only [writerRank,onTheWay,got,List.length_cons]
    omega
  · rename_i got
    simp only [Option.map_eq_some_iff,Prod.mk.injEq] at next
    obtain ⟨⟨b₁,pc,batch⟩,pulled,rfl,rfl,rfl⟩ := next
    cases queue : s.broker.queue with
    | nil =>
      have ended : s.ended = true := by
        simp [helpful,got,queue] at ready
        exact ready
      have finished : s.broker.is_write_finished = true := by
        simp [FifoBroker.is_write_finished,sound.writers,ended]
      have empty : s.broker.empty = true := by simp [FifoBroker.empty,queue]
      cases stage : s.reader.pc <;>
        simp only [pull,stage,finished,empty,FifoBroker.queue_get,queue,if_true,Option.some.injEq,
          Prod.mk.injEq,reduceCtorEq] at pulled <;>
        obtain ⟨rfl,rfl,rfl⟩ := pulled <;>
        simp [measure,writerRank,onTheWay,readerRank,got,empty,ended,stage,ReaderPc.toStop]
    | cons x rest =>
      have present : s.broker.empty = false := by simp [FifoBroker.empty,queue]
      cases stage : s.reader.pc with
      | queueGet =>
        simp only [pull,stage,FifoBroker.queue_get,queue,Option.some.injEq,Prod.mk.injEq] at pulled
        obtain ⟨rfl,rfl,rfl⟩ := pulled
        apply Or.inr
        apply measure_lt
        have room : writerRank { s with
            broker := { s.broker with queue := rest }
            reader := ⟨x,.loopWriters⟩
            received := s.received ++ [] } ≤ writerRank s := by
          unfold writerRank
          split
          · omega
          · have fuller : s.broker.full = false → ({ s.broker with queue := rest } : FifoBroker (List α)).full = false := by
              simp only [FifoBroker.full,queue,List.length_cons]
              grind
            cases full : s.broker.full with
            | true =>
              simp only [Bool.not_true,Bool.and_false,Bool.false_eq_true,if_false]
              omega
            | false => simp [fuller full]
        simp only [onTheWay,got,queue,List.flatten_cons,List.length_append,List.length_cons,
          List.length_nil,Option.getD_some,Option.toList_none] at room ⊢
        omega
      | stopped => simp [pull,stage] at pulled
      | _ =>
        simp only [pull,stage,present,Bool.false_eq_true,if_false,Option.some.injEq,
          Prod.mk.injEq] at pulled
        obtain ⟨rfl,rfl,rfl⟩ := pulled
        simp only [measure,writerRank,onTheWay,readerRank,got,present,stage,if_true,Option.getD_none]
        cases s.broker.is_write_finished <;> simp [ReaderPc.toItem]

theorem readStep_waits {items : List α} {s t : State α} (sound : Sound items s)
    (waiting : helpful s.reader.got s.broker.queue s.ended = .write) (stepped : readStep s = some t) :
    measure t = measure s ∧ t.broker = s.broker ∧ t.reader.got = s.reader.got ∧ t.ended = s.ended := by
  obtain ⟨got,queue,going⟩ : s.reader.got = [] ∧ s.broker.queue = [] ∧ s.ended = false := by
    simpa [helpful] using waiting
  have unfinished := sound.open_ going
  have empty : s.broker.empty = true := by simp [FifoBroker.empty,queue]
  have rank (pc : ReaderPc) : measure { s with reader := ⟨[],pc⟩ } = measure s := by
    simp [measure,writerRank,onTheWay,readerRank,got,empty,going]
  simp only [readStep,BatchReader.next_step,got,Option.map_map,Option.map_eq_some_iff] at stepped
  obtain ⟨⟨b,pc,batch⟩,pulled,rfl⟩ := stepped
  cases stage : s.reader.pc with
  | loopQueue | getQueue | stopped =>
    have seen := sound.reader.watched.seen (by simp [stage])
    rw [sound.writers,going] at seen
    simp at seen
  | loopWriters | getWriters =>
    simp only [pull,stage,unfinished,Bool.false_eq_true,if_false,Option.some.injEq,Prod.mk.injEq] at pulled
    obtain ⟨rfl,rfl,rfl⟩ := pulled
    exact ⟨by simpa using rank _,rfl,by simp [got],rfl⟩
  | queueGet =>
    simp only [pull,stage,FifoBroker.queue_get,queue,Option.some.injEq,Prod.mk.injEq] at pulled
    obtain ⟨rfl,rfl,rfl⟩ := pulled
    exact ⟨by simpa using rank _,rfl,by simp [got],rfl⟩

theorem readStep_enabled {s : State α} (going : s.reader.pc ≠ .stopped) : ∃ t, readStep s = some t := by
  cases got : s.reader.got with
  | cons item rest => simp [readStep,BatchReader.next_step,got]
  | nil =>
    cases stage : s.reader.pc with
    | stopped => contradiction
    | queueGet =>
      cases queue : s.broker.queue <;>
        simp [readStep,BatchReader.next_step,got,pull,stage,FifoBroker.queue_get,queue]
    | _ => simp [readStep,BatchReader.next_step,got,pull,stage]

theorem writeStep_enabled {batch_size : Int} {items : List α} {s : State α} (sound : Sound items s)
    (going : s.ended = false) (queue : s.broker.queue = []) : ∃ t, writeStep batch_size s = some t := by
  have room : s.broker.full = false := by
    simp only [FifoBroker.full,queue,List.length_nil]
    grind
  have unfinished := sound.open_ going
  have commits : ∃ result, s.writer.commit_step s.broker = some result := by
    cases checked : s.writer.checked <;>
      simp [BatchWriter.commit_step,BatchWriter.check,FifoBroker.queue_put,checked,room,unfinished]
  obtain ⟨result,commit⟩ := commits
  cases todo : s.todo with
  | cons item rest =>
    by_cases some_batch : batch_size ≤ s.writer.batch.length ∧ s.writer.batch ≠ []
    · simp [writeStep,going,todo,BatchWriter.put_step,some_batch,commit]
    · simp [writeStep,going,todo,BatchWriter.put_step,some_batch]
  | nil =>
    by_cases empty : s.writer.batch = []
    · cases checked : s.writer.checked <;>
        simp [writeStep,going,todo,BatchWriter.close_step,empty,checked,BatchWriter.check,unfinished]
    · simp [writeStep,going,todo,BatchWriter.close_step,empty,commit]

private theorem helpful_ne_full {got : List α} {queue : List (List α)} {ended again : Bool} : helpful got queue ended ≠ .full again := by
  unfold helpful
  split <;> exact nofun

theorem helpful_enabled {batch_size : Int} {items : List α} {s : State α} (sound : Sound items s)
    (going : s.reader.pc ≠ .stopped) :
    ∃ t, step batch_size s (helpful s.reader.got s.broker.queue s.ended) = some t ∧
      (t.reader.pc = .stopped ∨ measure t < measure s) := by
  cases help : helpful s.reader.got s.broker.queue s.ended with
  | read =>
    obtain ⟨t,stepped⟩ := readStep_enabled going
    exact ⟨t,stepped,readStep_measure sound help stepped⟩
  | write =>
    obtain ⟨got,queue,open_⟩ : s.reader.got = [] ∧ s.broker.queue = [] ∧ s.ended = false := by
      simpa [helpful] using help
    obtain ⟨t,stepped⟩ : ∃ t, writeStep batch_size s = some t := writeStep_enabled sound open_ queue
    refine ⟨t,stepped,.inr ((writeStep_measure stepped).resolve_right fun same => ?_)⟩
    have full := same.2.1
    simp only [FifoBroker.full,queue,List.length_nil] at full
    grind
  | full again => exact absurd help helpful_ne_full

private theorem step_measure {batch_size : Int} {items : List α} {s t : State α} {a : Label} (sound : Sound items s)
    (stepped : step batch_size s a = some t) :
    t.reader.pc = .stopped ∨ measure t < measure s ∨
      measure t = measure s ∧
        helpful t.reader.got t.broker.queue t.ended = helpful s.reader.got s.broker.queue s.ended := by
  cases a with
  | write =>
    rcases writeStep_measure stepped with less | ⟨same,_,broker,reader,ended⟩
    · exact .inr (.inl less)
    · exact .inr (.inr ⟨same,by rw [broker,reader,ended]⟩)
  | full again =>
    rcases fullStep_measure stepped with less | ⟨same,_,broker,reader,ended⟩
    · exact .inr (.inl less)
    · exact .inr (.inr ⟨same,by rw [broker,reader,ended]⟩)
  | read =>
    cases help : helpful s.reader.got s.broker.queue s.ended with
    | read => exact (readStep_measure sound help stepped).imp_right .inl
    | write =>
      obtain ⟨same,broker,got,ended⟩ := readStep_waits sound help stepped
      exact .inr (.inr ⟨same,by rw [broker,got,ended,help]⟩)
    | full again => exact absurd help helpful_ne_full

def progress (batch_size maxsize : Int) (items : List α) :
    System.Progress (system batch_size maxsize items) (Sound items) (fun s => s.reader.pc = .stopped) where
  measure := measure
  helpful s := helpful s.reader.got s.broker.queue s.ended
  preserved _ _ _ sound stepped := step_sound sound stepped
  enabled _ sound going := helpful_enabled sound going
  bounded _ _ _ sound _ stepped := step_measure sound stepped

/-- In every state of every interleaving no call has found the broker closed, and what has
been read is an initial part of what was put successfully; a reader that has stopped has
all of it, after the writer has signalled; and in every fair run the reader stops. -/
theorem batch_broker (batch_size maxsize : Int) (items : List α) :
    (∀ s, (system batch_size maxsize items).Reachable s →
      (s.ended = false → s.broker.is_write_finished = false) ∧
      s.received <+: s.accepted ∧ (s.accepted ++ s.todo).Sublist items ∧
      (s.reader.pc = .stopped → s.ended = true ∧ s.todo = [] ∧ s.received = s.accepted)) ∧
    ∀ schedule, System.Fair schedule →
      ∃ n, ((system batch_size maxsize items).trace (initial maxsize items) schedule n).reader.pc = .stopped := by
  constructor
  · intro s reached
    have sound : Sound items s := by
      apply reached.invariant
      · rintro _ rfl
        exact initial_sound maxsize items
      · exact fun _ _ _ holds stepped => step_sound holds stepped
    refine ⟨sound.open_,⟨s.reader.got ++ s.broker.queue.flatten ++ s.writer.batch,?_⟩,sound.chosen,
      fun stop => ?_⟩
    · simpa only [List.append_assoc] using sound.conserved
    · have none_left := sound.reader.watched.seen (.inr (.inr stop))
      have ended : s.ended = true := by
        by_contra going
        rw [Bool.not_eq_true] at going
        rw [sound.writers,going] at none_left
        simp at none_left
      obtain ⟨got,queue⟩ := sound.reader.stopped stop
      obtain ⟨batch,todo⟩ := sound.closed ended
      have conserved := sound.conserved
      rw [got,queue,batch] at conserved
      exact ⟨ended,todo,by simpa using conserved⟩
  · intro schedule fair
    exact (progress batch_size maxsize items).reaches (initial_sound maxsize items) fair

end Eggroll.BatchBroker
