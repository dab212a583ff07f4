import Eggroll.Broker

/-! `BatchBroker` of `transfer_pair.py`: a writer or reader of single items over a broker
of batches. Each side belongs to one thread; the calls into the broker below it are cut
into the broker's atomic parts. -/
namespace Eggroll.Broker
open Library
variable {α : Type}

theorem pull_cases {b b' : FifoBroker α} {pc pc' : ReaderPc} {item : Option α}
    (pulled : pull b pc = some (b',pc',item)) :
    (b' = b ∧ item = none) ∨
      ∃ x, item = some x ∧ b.queue = x :: b'.queue ∧ b'.active_writers = b.active_writers ∧
        pc' = .loopWriters := by
  cases pc with
  | queueGet =>
    cases items : b.queue with
    | nil =>
      simp only [pull,FifoBroker.queue_get,items,Option.some.injEq,Prod.mk.injEq] at pulled
      exact .inl ⟨pulled.1.symm,pulled.2.2.symm⟩
    | cons x rest =>
      simp only [pull,FifoBroker.queue_get,items,Option.some.injEq,Prod.mk.injEq] at pulled
      obtain ⟨rfl,rfl,rfl⟩ := pulled
      exact .inr ⟨x,rfl,rfl,rfl,rfl⟩
  | stopped => simp [pull] at pulled
  | _ =>
    simp only [pull,Option.some.injEq,Prod.mk.injEq] at pulled
    exact .inl ⟨pulled.1.symm,pulled.2.2.symm⟩

/-- A reader that has seen the writers finished has seen what stays true, and one that
has stopped has left nothing. -/
structure Watched (b : FifoBroker α) (pc : ReaderPc) : Prop where
  seen : pc = .loopQueue ∨ pc = .getQueue ∨ pc = .stopped → b.active_writers ≤ 0
  drained : pc = .stopped → b.queue = []

theorem Watched.pull {b b' : FifoBroker α} {pc pc' : ReaderPc} {item : Option α}
    (watched : Watched b pc) (pulled : pull b pc = some (b',pc',item)) : Watched b' pc' := by
  obtain ⟨seen,drained⟩ := watched
  cases pc with
  | loopWriters | getWriters =>
    simp only [Broker.pull,Option.some.injEq,Prod.mk.injEq] at pulled
    obtain ⟨rfl,rfl,_⟩ := pulled
    cases finished : b.is_write_finished with
    | true => exact ⟨fun _ => of_decide_eq_true finished,fun stop => by simp at stop⟩
    | false => exact ⟨fun later => by simp at later,fun stop => by simp at stop⟩
  | loopQueue | getQueue =>
    simp only [Broker.pull,Option.some.injEq,Prod.mk.injEq] at pulled
    obtain ⟨rfl,rfl,_⟩ := pulled
    have none_left := seen (by simp)
    cases empty : b.empty with
    | true => exact ⟨fun _ => none_left,fun _ => List.isEmpty_iff.mp empty⟩
    | false => exact ⟨fun _ => none_left,fun stop => by simp at stop⟩
  | queueGet =>
    have back : pc' = .loopWriters := by
      cases items : b.queue <;>
        simp only [Broker.pull,FifoBroker.queue_get,items,Option.some.injEq,Prod.mk.injEq] at pulled <;>
        exact pulled.2.1.symm
    subst back
    exact ⟨fun later => by simp at later,fun stop => by simp at stop⟩
  | stopped => simp [Broker.pull] at pulled

theorem Watched.of_active {b : FifoBroker α} {pc : ReaderPc} (watched : Watched b pc)
    (writing : 0 < b.active_writers) (b' : FifoBroker α) : Watched b' pc := by
  have early (later : pc = .loopQueue ∨ pc = .getQueue ∨ pc = .stopped) : False := by
    have := watched.seen later
    omega
  exact ⟨fun later => (early later).elim,fun stop => (early (.inr (.inr stop))).elim⟩

theorem Watched.decrement {b : FifoBroker α} {pc : ReaderPc} (watched : Watched b pc) :
    Watched b.decrement pc := by
  refine ⟨fun later => ?_,watched.drained⟩
  have := watched.seen later
  change b.active_writers - 1 ≤ 0
  omega

/-- The batch being filled, and whether the call into the broker that is under way has
passed its check of `is_write_finished`. -/
structure BatchWriter (α : Type) where
  batch : List α
  checked : Bool

namespace BatchWriter

/-- The check; `none` is the broker's ValueError. -/
def check (w : BatchWriter α) (b : FifoBroker (List α)) : Option (BatchWriter α) :=
  if b.is_write_finished then none else some { w with checked := true }

/-- A part of `_commit` of a batch that is not empty. -/
def commit_step (w : BatchWriter α) (b : FifoBroker (List α)) :
    Option (BatchWriter α × FifoBroker (List α) × Bool) :=
  if w.checked then (b.queue_put w.batch).map fun b' => (⟨[],false⟩,b',false)
  else (w.check b).map fun w' => (w',b,false)

/-- A part of `put(item)`; the flag says that the call has returned. -/
def put_step (batch_size : Int) (w : BatchWriter α) (b : FifoBroker (List α)) (item : α) :
    Option (BatchWriter α × FifoBroker (List α) × Bool) :=
  if batch_size ≤ w.batch.length ∧ w.batch ≠ [] then w.commit_step b
  else some (⟨w.batch ++ [item],false⟩,b,true)

/-- A part of `signal_write_finish()`; the flag says that the call has returned. -/
def close_step (w : BatchWriter α) (b : FifoBroker (List α)) :
    Option (BatchWriter α × FifoBroker (List α) × Bool) :=
  if w.batch ≠ [] then w.commit_step b
  else if w.checked then some (⟨[],false⟩,b.decrement,true)
  else (w.check b).map fun w' => (w',b,false)

private theorem commit_step_spec {w w' : BatchWriter α} {b b' : FifoBroker (List α)} {returned : Bool}
    (stepped : w.commit_step b = some (w',b',returned)) :
    returned = false ∧ b'.active_writers = b.active_writers ∧
      b'.queue.flatten ++ w'.batch = b.queue.flatten ++ w.batch := by
  unfold commit_step at stepped
  split at stepped
  · simp only [FifoBroker.queue_put,Option.map_eq_some_iff,Option.ite_none_left_eq_some,
      Option.some.injEq,Prod.mk.injEq] at stepped
    obtain ⟨_,⟨_,rfl⟩,rfl,rfl,rfl⟩ := stepped
    exact ⟨rfl,rfl,by simp⟩
  · simp only [check,Option.map_eq_some_iff,Option.ite_none_left_eq_some,Option.some.injEq,
      Prod.mk.injEq] at stepped
    obtain ⟨_,⟨_,rfl⟩,rfl,rfl,rfl⟩ := stepped
    exact ⟨rfl,rfl,rfl⟩

theorem put_step_spec {batch_size : Int} {w w' : BatchWriter α} {b b' : FifoBroker (List α)}
    {item : α} {returned : Bool} (stepped : w.put_step batch_size b item = some (w',b',returned)) :
    b'.active_writers = b.active_writers ∧
      b'.queue.flatten ++ w'.batch =
        b.queue.flatten ++ w.batch ++ (if returned then [item] else []) := by
  unfold put_step at stepped
  split at stepped
  · obtain ⟨rfl,active,same⟩ := commit_step_spec stepped
    exact ⟨active,by simpa using same⟩
  · simp only [Option.some.injEq,Prod.mk.injEq] at stepped
    obtain ⟨rfl,rfl,rfl⟩ := stepped
    exact ⟨rfl,by simp⟩

theorem close_step_spec {w w' : BatchWriter α} {b b' : FifoBroker (List α)} {returned : Bool}
    (stepped : w.close_step b = some (w',b',returned)) :
    b'.queue.flatten ++ w'.batch = b.queue.flatten ++ w.batch ∧
      (returned = false → b'.active_writers = b.active_writers) ∧
      (returned = true → w'.batch = [] ∧ b' = b.decrement) := by
  unfold close_step at stepped
  split at stepped
  · obtain ⟨rfl,active,same⟩ := commit_step_spec stepped
    exact ⟨same,fun _ => active,fun done => by simp at done⟩
  · rename_i empty
    rw [ne_eq,not_not] at empty
    split at stepped
    · simp only [Option.some.injEq,Prod.mk.injEq] at stepped
      obtain ⟨rfl,rfl,rfl⟩ := stepped
      exact ⟨by rw [empty]; rfl,fun no => by simp at no,fun _ => ⟨rfl,rfl⟩⟩
    · simp only [check,Option.map_eq_some_iff,Option.ite_none_left_eq_some,Option.some.injEq,
        Prod.mk.injEq] at stepped
      obtain ⟨_,⟨_,rfl⟩,rfl,rfl,rfl⟩ := stepped
      exact ⟨rfl,fun _ => rfl,fun done => by simp at done⟩

end BatchWriter

/-- The batch being handed out, and where the reader is in the broker below. -/
structure BatchReader (α : Type) where
  got : List α
  pc : ReaderPc

namespace BatchReader

/-- A part of `__next__`; the item when the call returns one. -/
def next_step (r : BatchReader α) (b : FifoBroker (List α)) :
    Option (BatchReader α × FifoBroker (List α) × Option α) :=
  match r.got with
  | item :: rest => some ({ r with got := rest },b,some item)
  | [] => (pull b r.pc).map fun (b',pc,batch) => (⟨batch.getD [],pc⟩,b',none)

/-- A stopped reader has handed out everything. -/
structure Sound (r : BatchReader α) (b : FifoBroker (List α)) : Prop where
  watched : Watched b r.pc
  between : r.got ≠ [] → r.pc = .loopWriters

theorem Sound.stopped {r : BatchReader α} {b : FifoBroker (List α)} (sound : r.Sound b)
    (stop : r.pc = .stopped) : r.got = [] ∧ b.queue = [] := by
  refine ⟨?_,sound.watched.drained stop⟩
  by_contra left
  rw [sound.between left] at stop
  contradiction

theorem Sound.of_active {r : BatchReader α} {b : FifoBroker (List α)} (sound : r.Sound b)
    (writing : 0 < b.active_writers) (b' : FifoBroker (List α)) : r.Sound b' :=
  ⟨sound.watched.of_active writing b',sound.between⟩

theorem Sound.decrement {r : BatchReader α} {b : FifoBroker (List α)} (sound : r.Sound b) :
    r.Sound b.decrement :=
  ⟨sound.watched.decrement,sound.between⟩

theorem next_step_spec {r r' : BatchReader α} {b b' : FifoBroker (List α)} {item : Option α}
    (sound : r.Sound b) (stepped : r.next_step b = some (r',b',item)) :
    r'.Sound b' ∧ b'.active_writers = b.active_writers ∧
      item.toList ++ (r'.got ++ b'.queue.flatten) = r.got ++ b.queue.flatten := by
  unfold next_step at stepped
  split at stepped
  · rename_i x rest got
    simp only [Option.some.injEq,Prod.mk.injEq] at stepped
    obtain ⟨rfl,rfl,rfl⟩ := stepped
    refine ⟨⟨sound.watched,fun _ => sound.between (by simp [got])⟩,rfl,by simp [got]⟩
  · rename_i got
    simp only [Option.map_eq_some_iff,Prod.mk.injEq] at stepped
    obtain ⟨⟨b₁,pc,batch⟩,pulled,rfl,rfl,rfl⟩ := stepped
    have watched := sound.watched.pull pulled
    obtain ⟨rfl,rfl⟩ | ⟨x,rfl,queue,active,rfl⟩ := pull_cases pulled
    · exact ⟨⟨watched,fun left => by simp at left⟩,rfl,by simp [got]⟩
    · exact ⟨⟨watched,fun _ => rfl⟩,active,by simp [got,queue]⟩

end BatchReader
end Eggroll.Broker
