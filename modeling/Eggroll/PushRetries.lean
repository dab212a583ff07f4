import Eggroll.BatchStream

/-! The retries of a push (`generate_packet` under the loop of `_push_bytes` and of
`_push_partition`): the attempts at each stream take any number of its packets before they
fail, and the last one takes them all. What it emits is what a first attempt would have
emitted exactly when the numbers were saved and no mark of the end was left behind. -/
namespace Eggroll.BatchStream
open Library

/-- gRPC takes `n` packets from a generator, or all it has. -/
def Generator.take (stream : List (Option Bytes)) (cur_retry : Nat) :
    Nat → BatchStreamHelper → Generator → List Packet × BatchStreamHelper
  | 0, h, _ => ([],h)
  | n + 1, h, g =>
    match g.next h stream cur_retry with
    | none => ([],h)
    | some (packet,h',g') =>
      let later := take stream cur_retry n h' g'
      (packet :: later.1,later.2)

/-- One call of `stub.push`. -/
def attempt (h : BatchStreamHelper) (stream : List (Option Bytes)) (cur_retry n : Nat) :
    List Packet × BatchStreamHelper :=
  Generator.take stream cur_retry n h .fresh

/-- The failed attempts at a stream, each with the number of packets it took, and behind them
the last attempt, which takes all packets: what that one emits. -/
def retried (stream : List (Option Bytes)) : Nat → List Nat → BatchStreamHelper →
    List Packet × BatchStreamHelper
  | cur_retry, [], h => attempt h stream cur_retry (stream.length + 1)
  | cur_retry, n :: failed, h => retried stream (cur_retry + 1) failed (attempt h stream cur_retry n).2

/-- The streams of a partition, with `_finish_partition` as each of them leaves it. Every
stream takes a batch, so the number of batches is fuel enough. -/
def _generate_batch_streams (batches_per_stream : Nat) : Nat → Upcoming → List (List (Option Bytes) × Bool)
  | fuel + 1, some (peek,rest) =>
    let chunk := chunk_batch_stream (batches_per_stream - 1) peek rest
    (chunk.1,chunk.2.isNone) :: _generate_batch_streams batches_per_stream fuel chunk.2
  | _, _ => []

def streams (batches_per_stream : Nat) (batches : List (Option Bytes)) : List (List (Option Bytes) × Bool) :=
  _generate_batch_streams batches_per_stream batches.length (Upcoming.of batches)

def BatchStreamHelper.next_stream (h : BatchStreamHelper) (finish : Bool) : BatchStreamHelper :=
  { h with
    rs_header := { h.rs_header with stream_seq := h.rs_header.stream_seq + 1 }
    finish_partition := finish }

section
variable (h : BatchStreamHelper) (finish : Bool)

@[simp] theorem next_stream_batch_seq :
    (h.next_stream finish).rs_header.batch_seq = h.rs_header.batch_seq := rfl

@[simp] theorem next_stream_stream_seq :
    (h.next_stream finish).rs_header.stream_seq = h.rs_header.stream_seq + 1 := rfl

@[simp] theorem next_stream_stage : (h.next_stream finish).rs_header.stage = h.rs_header.stage := rfl

@[simp] theorem next_stream_finish : (h.next_stream finish).finish_partition = finish := rfl

end

/-- The push loop: what the last attempt at each stream emits. `tries i` are the failed
attempts at stream `i`. -/
def push (tries : Nat → List Nat) : Nat → BatchStreamHelper → List (List (Option Bytes) × Bool) →
    List (List Packet)
  | _, _, [] => []
  | i, h, (stream,finish) :: rest =>
    let pushed := retried stream 0 (tries i) (h.next_stream finish)
    pushed.1 :: push tries (i + 1) pushed.2 rest

def push_partition (data_type : String) (batches_per_stream : Nat) (tries : Nat → List Nat)
    (batches : List (Option Bytes)) : List (List Packet) :=
  push tries 0 (BatchStreamHelper.create data_type) (streams batches_per_stream batches)

/-- The batches that get a packet: a batch without bytes is passed over, unless it is the
last. -/
def bodies : Option Bytes → List (Option Bytes) → List (Option Bytes)
  | prev_batch, bin_batch :: rest =>
    if truthy prev_batch then prev_batch :: bodies bin_batch rest else bodies bin_batch rest
  | prev_batch, [] => [prev_batch]

def packet_count (stream : List (Option Bytes)) : Nat := (bodies none stream).length

def Generator.bodies (stream : List (Option Bytes)) : Generator → List (Option Bytes)
  | .fresh => BatchStream.bodies none stream
  | .looping prev_batch rest => BatchStream.bodies prev_batch rest
  | .exhausted => []

/-- The helper with the numbers of the next packet, if `more` follow it. -/
def BatchStreamHelper.numbered (h : BatchStreamHelper) (more : List (Option Bytes)) : BatchStreamHelper :=
  if more = [] then h.count_up.mark_finish else h.count_up

private theorem numbered_header (h : BatchStreamHelper) (more : List (Option Bytes)) :
    (h.numbered more).rs_header.batch_seq = h.rs_header.batch_seq + 1 ∧
      (h.numbered more).rs_header.stream_seq = h.rs_header.stream_seq := by
  unfold BatchStreamHelper.numbered BatchStreamHelper.mark_finish
  split
  · split <;> exact ⟨rfl,rfl⟩
  · exact ⟨rfl,rfl⟩

/-- The first `n` packets for the given bodies. -/
def emitted : Nat → BatchStreamHelper → List (Option Bytes) → List Packet × BatchStreamHelper
  | n + 1, h, batch :: more =>
    let later := emitted n (h.numbered more) more
    ((h.numbered more).encode_packet batch :: later.1,later.2)
  | _, h, _ => ([],h)

@[simp] theorem emitted_zero (h : BatchStreamHelper) (batches : List (Option Bytes)) :
    emitted 0 h batches = ([],h) := by
  cases batches <;> rfl

@[simp] theorem emitted_nil (n : Nat) (h : BatchStreamHelper) : emitted n h [] = ([],h) := by
  cases n <;> rfl

private theorem bodies_ne_nil (prev_batch : Option Bytes) (rest : List (Option Bytes)) : bodies prev_batch rest ≠ [] := by
  induction rest generalizing prev_batch with
  | nil => simp [bodies]
  | cons batch rest ih =>
    rw [bodies]
    split
    · simp
    · exact ih batch

private theorem bodies_length_le (prev_batch : Option Bytes) (rest : List (Option Bytes)) :
    (bodies prev_batch rest).length ≤ rest.length + 1 := by
  induction rest generalizing prev_batch with
  | nil => simp [bodies]
  | cons batch rest ih =>
    have := ih batch
    rw [bodies]
    split <;> simp <;> omega

private theorem Generator.advance_bodies (h : BatchStreamHelper) (prev_batch : Option Bytes) (rest : List (Option Bytes)) :
    ∃ batch more g, BatchStream.bodies prev_batch rest = batch :: more ∧
      advance h prev_batch rest = ((h.numbered more).encode_packet batch,h.numbered more,g) ∧
      g ≠ .fresh ∧ ∀ stream, g.bodies stream = more := by
  induction rest generalizing prev_batch with
  | nil => exact ⟨prev_batch,[],.exhausted,rfl,by simp [advance,BatchStreamHelper.numbered],by simp,fun _ => rfl⟩
  | cons batch rest ih =>
    cases full : truthy prev_batch with
    | true =>
      refine ⟨prev_batch,BatchStream.bodies batch rest,.looping batch rest,?_,?_,by simp,fun _ => rfl⟩
      · simp [BatchStream.bodies,full]
      · simp [advance,full,BatchStreamHelper.numbered,bodies_ne_nil]
    | false =>
      obtain ⟨first,more,g,split,advanced,later⟩ := ih batch
      refine ⟨first,more,g,?_,?_,later⟩
      · simpa [BatchStream.bodies,full] using split
      · simpa [advance,full] using advanced

private theorem Generator.take_eq (stream : List (Option Bytes)) (cur_retry n : Nat) (h : BatchStreamHelper)
    {g : Generator} (begun : g ≠ .fresh) : g.take stream cur_retry n h = emitted n h (g.bodies stream) := by
  induction n generalizing h g with
  | zero => simp [take]
  | succ n ih =>
    cases g with
    | fresh => contradiction
    | exhausted => simp [take,next,bodies]
    | looping prev_batch rest =>
      obtain ⟨batch,more,g,split,advanced,begun',later⟩ := advance_bodies h prev_batch rest
      have left : (Generator.looping prev_batch rest).bodies stream = batch :: more := split
      simp only [left,take,next,advanced,ih _ begun',later stream,emitted]

theorem attempt_eq (h : BatchStreamHelper) (stream : List (Option Bytes)) (cur_retry n : Nat) :
    attempt h stream cur_retry n =
      if n = 0 then ([],h) else emitted n (h.rewind cur_retry) (bodies none stream) := by
  cases n with
  | zero => rfl
  | succ n =>
    obtain ⟨batch,more,g,split,advanced,begun,later⟩ := Generator.advance_bodies (h.rewind cur_retry) none stream
    simp only [attempt,Generator.take,Generator.next,advanced,split,emitted,Generator.take_eq _ _ _ _ begun,
      later stream,Nat.succ_ne_zero,if_false]

private theorem whole_attempt (h : BatchStreamHelper) (stream : List (Option Bytes)) (cur_retry : Nat) :
    attempt h stream cur_retry (stream.length + 1) =
      emitted (stream.length + 1) (h.rewind cur_retry) (bodies none stream) := by
  rw [attempt_eq,if_neg (Nat.succ_ne_zero _)]

private theorem emitted_state (n : Nat) (h : BatchStreamHelper) (batches : List (Option Bytes)) :
    (emitted n h batches).2 = { h with rs_header :=
      if h.finish_partition ∧ batches ≠ [] ∧ batches.length ≤ n then
        { h.rs_header with
          batch_seq := h.rs_header.batch_seq + batches.length
          stage := FINISH_STATUS
          total_streams := h.rs_header.stream_seq
          total_batches := (h.rs_header.batch_seq + batches.length : Nat) }
      else { h.rs_header with batch_seq := h.rs_header.batch_seq + min n batches.length } } := by
  induction n generalizing h batches with
  | zero => cases batches <;> simp
  | succ n ih =>
    cases batches with
    | nil => simp
    | cons batch more =>
      simp only [emitted,ih]
      cases more with
      | nil =>
        cases finish : h.finish_partition <;>
          simp [BatchStreamHelper.numbered,BatchStreamHelper.mark_finish,BatchStreamHelper.count_up,finish]
      | cons next rest =>
        simp only [BatchStreamHelper.numbered,List.cons_ne_nil,if_false,BatchStreamHelper.count_up,ne_eq,
          not_false_eq_true,true_and,List.length_cons,Nat.add_le_add_iff_right,Nat.add_min_add_right]
        split <;> simp <;> omega

/-- The mark of the end that a whole attempt leaves, at the numbers the stream starts from. -/
def BatchStreamHelper.marked (base : BatchStreamHelper) (count : Nat) : BatchStreamHelper :=
  { base with rs_header := { base.rs_header with
      stage := FINISH_STATUS
      total_streams := base.rs_header.stream_seq
      total_batches := (base.rs_header.batch_seq + count : Nat) } }

/-- The numbers the helper has are those it has saved. -/
structure Saved (base : BatchStreamHelper) : Prop where
  batch_seq : base.last_batch_seq = base.rs_header.batch_seq
  stream_seq : base.last_stream_seq = base.rs_header.stream_seq

private theorem rewind_saved (h : BatchStreamHelper) : Saved (h.rewind 0) := ⟨rfl,rfl⟩

/-- Where a retry starts: the numbers of the stream, and whether the mark is there. -/
def startOf (base : BatchStreamHelper) (count : Nat) (mark : Bool) : BatchStreamHelper :=
  if mark then base.marked count else base

def Resumes (s base : BatchStreamHelper) (count : Nat) (mark : Bool) : Prop :=
  ∀ k, s.rewind (k + 1) = startOf base count mark

private theorem emitted_resumes {base : BatchStreamHelper} (saved : Saved base) (stream : List (Option Bytes)) (n : Nat)
    (mark : Bool) (finish : mark = true → base.finish_partition = true) :
    Resumes (emitted n (startOf base (packet_count stream) mark) (bodies none stream)).2 base
      (packet_count stream) (mark || base.finish_partition && decide (packet_count stream ≤ n)) := by
  intro k
  obtain ⟨⟨data_type,total_streams,total_batches,stream_seq,batch_seq,stage⟩,finish_partition,
    last_batch_seq,last_stream_seq⟩ := base
  obtain ⟨same_batch,same_stream⟩ := saved
  simp only at same_batch same_stream
  subst same_batch same_stream
  have some_body := bodies_ne_nil none stream
  rw [emitted_state,packet_count]
  by_cases whole : (bodies none stream).length ≤ n <;> cases mark <;> cases finish_partition <;>
    simp [startOf,BatchStreamHelper.rewind,BatchStreamHelper.marked,whole,some_body] at finish ⊢

private theorem retried_resumed {base : BatchStreamHelper} (saved : Saved base) (stream : List (Option Bytes))
    (failed : List Nat) {s : BatchStreamHelper} {mark : Bool}
    (resumes : Resumes s base (packet_count stream) mark) (finish : mark = true → base.finish_partition = true)
    (k : Nat) :
    retried stream (k + 1) failed s = emitted (stream.length + 1)
      (startOf base (packet_count stream)
        (mark || base.finish_partition && failed.any fun n => packet_count stream ≤ n)) (bodies none stream) := by
  induction failed generalizing s mark k with
  | nil => rw [retried,whole_attempt,resumes]; simp
  | cons n failed ih =>
    rw [retried,attempt_eq]
    split
    · rename_i zero
      have some_packet : ¬ packet_count stream ≤ n := by
        have := List.length_pos_iff.mpr (bodies_ne_nil none stream)
        rw [packet_count]
        omega
      rw [ih resumes finish (k + 1)]
      simp [some_packet]
    · rw [resumes]
      have later := emitted_resumes saved stream n mark finish
      rw [ih later (by grind) (k + 1)]
      cases mark <;> cases base.finish_partition <;> simp

private theorem retried_stale (stream : List (Option Bytes)) (failed : List Nat) (s : BatchStreamHelper) (k : Nat) :
    ∃ packet rest, (retried stream (k + 1) failed s).1 = packet :: rest ∧
      packet.header.stream_seq = s.last_stream_seq := by
  induction failed generalizing s k with
  | nil =>
    rw [retried,whole_attempt]
    obtain ⟨batch,more,split⟩ := List.exists_cons_of_ne_nil (bodies_ne_nil none stream)
    rw [split,emitted]
    refine ⟨_,_,rfl,?_⟩
    exact (numbered_header _ _).2
  | cons n failed ih =>
    rw [retried]
    obtain ⟨packet,rest,first,number⟩ := ih (attempt s stream (k + 1) n).2 (k + 1)
    refine ⟨packet,rest,first,number.trans ?_⟩
    rw [attempt_eq]
    split
    · rfl
    · rw [emitted_state]
      rfl

/-- The failed attempts leave nothing behind: the first one has saved the numbers, and none
has marked the end of a stream that has packets before the last. -/
def Recovers (stream : List (Option Bytes)) (finish : Bool) (failed : List Nat) : Prop :=
  failed.head? ≠ some 0 ∧
    (finish = true → 2 ≤ packet_count stream → ∀ n ∈ failed, n < packet_count stream)

instance (stream : List (Option Bytes)) (finish : Bool) (failed : List Nat) :
    Decidable (Recovers stream finish failed) := inferInstanceAs (Decidable (_ ∧ _))

private theorem retried_first (h : BatchStreamHelper) (stream : List (Option Bytes)) :
    retried stream 0 [] h = emitted (stream.length + 1) (h.rewind 0) (bodies none stream) := by
  rw [retried,whole_attempt]

private theorem retried_begun (h : BatchStreamHelper) (stream : List (Option Bytes)) {n : Nat} (begun : n ≠ 0)
    (failed : List Nat) : retried stream 0 (n :: failed) h = emitted (stream.length + 1)
      (startOf (h.rewind 0) (packet_count stream)
        (h.finish_partition && (n :: failed).any fun n => packet_count stream ≤ n)) (bodies none stream) := by
  have resumes := emitted_resumes (rewind_saved h) stream n false (by simp)
  rw [retried,attempt_eq,if_neg begun]
  have last := retried_resumed (rewind_saved h) stream failed resumes
    (fun mark => by simp only [Bool.false_or,Bool.and_eq_true] at mark; exact mark.1) 0
  rw [show startOf (h.rewind 0) (packet_count stream) false = h.rewind 0 from rfl] at last
  rw [last]
  have kept : (h.rewind 0).finish_partition = h.finish_partition := rfl
  rw [kept]
  cases h.finish_partition <;> simp

private theorem retried_recovers {h : BatchStreamHelper} {stream : List (Option Bytes)} {failed : List Nat}
    (recovers : Recovers stream h.finish_partition failed) : retried stream 0 failed h = retried stream 0 [] h := by
  obtain ⟨saved,unmarked⟩ := recovers
  cases failed with
  | nil => rfl
  | cons n failed =>
    rw [retried_begun h stream (by simpa using saved),retried_first]
    cases mark : h.finish_partition && (n :: failed).any fun n => packet_count stream ≤ n with
    | false => rfl
    | true =>
      rw [Bool.and_eq_true] at mark
      obtain ⟨m,member,whole⟩ := List.any_eq_true.mp mark.2
      have short : packet_count stream < 2 := by
        by_contra long
        have few := unmarked mark.1 (Nat.le_of_not_lt long) m member
        exact absurd (of_decide_eq_true whole) (Nat.not_le_of_lt few)
      obtain ⟨batch,more,split⟩ := List.exists_cons_of_ne_nil (bodies_ne_nil none stream)
      have single : more = [] := by
        rw [packet_count,split,List.length_cons] at short
        exact List.length_eq_zero_iff.mp (by omega)
      subst single
      -- the only packet writes the mark again
      rw [split,startOf,if_pos rfl]
      have finish : (h.rewind 0).finish_partition = true := mark.1
      simp [emitted,BatchStreamHelper.numbered,BatchStreamHelper.mark_finish,BatchStreamHelper.count_up,
        BatchStreamHelper.marked,finish]

private theorem retried_differs {h : BatchStreamHelper} {stream : List (Option Bytes)} {failed : List Nat}
    (behind : h.last_stream_seq ≠ h.rs_header.stream_seq) (unmarked : h.rs_header.stage ≠ FINISH_STATUS)
    (residue : ¬ Recovers stream h.finish_partition failed) :
    (retried stream 0 failed h).1 ≠ (retried stream 0 [] h).1 := by
  obtain ⟨batch,more,split⟩ := List.exists_cons_of_ne_nil (bodies_ne_nil none stream)
  rw [retried_first,split,emitted]
  cases failed with
  | nil => exact absurd ⟨by simp,fun _ _ n member => by simp at member⟩ residue
  | cons n failed =>
    by_cases begun : n = 0
    · subst begun
      obtain ⟨packet,rest,first,number⟩ := retried_stale stream failed h 0
      have zero : retried stream 0 (0 :: failed) h = retried stream 1 failed h := rfl
      rw [zero,first]
      intro same
      obtain ⟨rfl,_⟩ := List.cons.inj same
      exact behind (number.symm.trans (numbered_header (h.rewind 0) more).2)
    · obtain ⟨finish,long,m,member,whole⟩ : h.finish_partition = true ∧ 2 ≤ packet_count stream ∧
          ∃ m ∈ n :: failed, packet_count stream ≤ m := by
        by_contra none_
        refine residue ⟨by simpa using begun,fun finish long m member => ?_⟩
        by_contra whole
        exact none_ ⟨finish,long,m,member,Nat.le_of_not_lt whole⟩
      have mark : (h.finish_partition && (n :: failed).any fun n => packet_count stream ≤ n) = true := by
        rw [finish,Bool.true_and,List.any_eq_true]
        exact ⟨m,member,decide_eq_true whole⟩
      have others : more ≠ [] := by
        rintro rfl
        rw [packet_count,split,List.length_singleton] at long
        omega
      rw [retried_begun h stream begun,mark,startOf,if_pos rfl,split,emitted]
      intro same
      have stage := congrArg (fun packet : Packet => packet.header.stage) (List.cons.inj same).1
      simp only [BatchStreamHelper.encode_packet,BatchStreamHelper.numbered,others,if_false] at stage
      exact unmarked stage.symm

def Ordered : List (List (Option Bytes) × Bool) → Prop
  | [] => True
  | [last] => last.2 = true
  | stream :: next :: rest => stream.2 = false ∧ Ordered (next :: rest)

/-- Between two streams a retry would go back to an earlier one, and nothing is marked. -/
structure Fresh (h : BatchStreamHelper) : Prop where
  behind : h.last_stream_seq ≤ h.rs_header.stream_seq
  unmarked : h.rs_header.stage ≠ FINISH_STATUS

private theorem first_state (h : BatchStreamHelper) (stream : List (Option Bytes)) (finish : Bool) :
    (retried stream 0 [] (h.next_stream finish)).2 =
      (emitted (stream.length + 1) ((h.next_stream finish).rewind 0) (bodies none stream)).2 := by
  rw [retried_first]

theorem Fresh.next {h : BatchStreamHelper} (fresh : Fresh h) (stream : List (Option Bytes)) :
    Fresh (retried stream 0 [] (h.next_stream false)).2 := by
  rw [first_state,emitted_state]
  exact ⟨Nat.le_refl _,fresh.unmarked⟩

private theorem push_eq_iff {tries : Nat → List Nat} {streams : List (List (Option Bytes) × Bool)}
    (ordered : Ordered streams) {h : BatchStreamHelper} (fresh : Fresh h) (i : Nat) :
    push tries i h streams = push (fun _ => []) i h streams ↔
      ∀ j stream finish, streams[j]? = some (stream,finish) → Recovers stream finish (tries (i + j)) := by
  induction streams generalizing h i with
  | nil => simp [push]
  | cons first rest ih =>
    obtain ⟨stream,finish⟩ := first
    have apart : (h.next_stream finish).last_stream_seq ≠ (h.next_stream finish).rs_header.stream_seq :=
      Nat.ne_of_lt (Nat.lt_succ_of_le fresh.behind)
    have split : (∀ j s f, ((stream,finish) :: rest)[j]? = some (s,f) → Recovers s f (tries (i + j))) ↔
        Recovers stream finish (tries i) ∧
          ∀ j s f, rest[j]? = some (s,f) → Recovers s f (tries (i + 1 + j)) := by
      constructor
      · intro all
        refine ⟨all 0 stream finish rfl,fun j s f found => ?_⟩
        have later := all (j + 1) s f found
        rwa [Nat.add_comm j 1,← Nat.add_assoc] at later
      · rintro ⟨now,later⟩ j s f found
        cases j with
        | zero =>
          cases found
          exact now
        | succ j =>
          have recovers := later j s f found
          rwa [Nat.add_assoc,Nat.add_comm 1 j] at recovers
    rw [split,push,push]
    by_cases recovers : Recovers stream finish (tries i)
    · have same : retried stream 0 (tries i) (h.next_stream finish) = retried stream 0 [] (h.next_stream finish) :=
        retried_recovers recovers
      rw [same,List.cons_inj_right]
      cases rest with
      | nil => simp [push,recovers]
      | cons next rest =>
        obtain ⟨more,ordered⟩ := ordered
        simp only at more
        subst more
        rw [ih ordered (fresh.next stream) (i + 1)]
        exact ⟨fun all => ⟨recovers,all⟩,fun both => both.2⟩
    · have differs := retried_differs (h := h.next_stream finish) apart fresh.unmarked recovers
      exact ⟨fun same => absurd (List.cons.inj same).1 differs,fun both => absurd both.1 recovers⟩

theorem _generate_batch_streams_ordered (batches_per_stream : Nat) {fuel : Nat} {upcoming : Upcoming}
    (enough : upcoming.batches.length ≤ fuel) :
    Ordered (_generate_batch_streams batches_per_stream fuel upcoming) ∧
      ((_generate_batch_streams batches_per_stream fuel upcoming).map Prod.fst).flatten = upcoming.batches := by
  induction fuel generalizing upcoming with
  | zero =>
    cases upcoming with
    | none => exact ⟨trivial,rfl⟩
    | some peek => simp [Upcoming.batches] at enough
  | succ fuel ih =>
    cases upcoming with
    | none => exact ⟨trivial,rfl⟩
    | some peek =>
      obtain ⟨peek,rest⟩ := peek
      obtain ⟨some_batch,joined⟩ := chunk_batch_stream_split (batches_per_stream - 1) peek rest
      have shorter : (chunk_batch_stream (batches_per_stream - 1) peek rest).2.batches.length ≤ fuel := by
        have lengths := congrArg List.length joined
        have positive := List.length_pos_iff.mpr some_batch
        have few : rest.length + 1 ≤ fuel + 1 := enough
        rw [List.length_append,List.length_cons] at lengths
        omega
      obtain ⟨ordered,flat⟩ := ih shorter
      refine ⟨?_,?_⟩
      · rw [_generate_batch_streams]
        cases later : (chunk_batch_stream (batches_per_stream - 1) peek rest).2 with
        | none => simp [_generate_batch_streams,Ordered]
        | some next =>
          rw [later] at ordered
          cases fuel with
          | zero =>
            rw [later] at shorter
            simp [Upcoming.batches] at shorter
          | succ fuel => exact ⟨rfl,ordered⟩
      · rw [_generate_batch_streams,List.map_cons,List.flatten_cons,flat]
        exact joined

/-- The packets of a partition, stream by stream, are numbered from 1 on; the last one and
no other says that it is the last and how many there are. -/
structure Numbered (streams : List (List Packet)) : Prop where
  batch_seq : streams.flatten.map (fun packet => packet.header.batch_seq) = List.range' 1 streams.flatten.length
  stream_seq : ∀ i stream, streams[i]? = some stream → ∀ packet ∈ stream, packet.header.stream_seq = i + 1
  unmarked : ∀ packet ∈ streams.flatten.dropLast, packet.header.stage ≠ FINISH_STATUS
  marked : ∀ packet, streams.flatten.getLast? = some packet → packet.header.stage = FINISH_STATUS ∧
    packet.header.total_batches = streams.flatten.length ∧ packet.header.total_streams = streams.length

/-- The packets of one stream. -/
structure NumberedStream (base : BatchStreamHelper) (packets : List Packet) : Prop where
  batch_seq : packets.map (fun packet => packet.header.batch_seq) =
    List.range' (base.rs_header.batch_seq + 1) packets.length
  stream_seq : ∀ packet ∈ packets, packet.header.stream_seq = base.rs_header.stream_seq
  unmarked : ∀ packet ∈ packets.dropLast, packet.header.stage = base.rs_header.stage
  last : ∀ packet, packets.getLast? = some packet →
    if base.finish_partition then packet.header.stage = FINISH_STATUS ∧
      packet.header.total_batches = (base.rs_header.batch_seq + packets.length : Nat) ∧
      packet.header.total_streams = base.rs_header.stream_seq
    else packet.header.stage = base.rs_header.stage

private theorem emitted_length {n : Nat} (h : BatchStreamHelper) {batches : List (Option Bytes)}
    (enough : batches.length ≤ n) : (emitted n h batches).1.length = batches.length := by
  induction n generalizing h batches with
  | zero => simp [List.length_eq_zero_iff.mp (Nat.le_zero.mp enough)]
  | succ n ih =>
    cases batches with
    | nil => rfl
    | cons batch more => simp [emitted,ih (h.numbered more) (Nat.le_of_succ_le_succ enough)]

private theorem emitted_numbered {n : Nat} (base : BatchStreamHelper) {batches : List (Option Bytes)}
    (enough : batches.length ≤ n) : NumberedStream base (emitted n base batches).1 := by
  induction n generalizing base batches with
  | zero =>
    rw [List.length_eq_zero_iff.mp (Nat.le_zero.mp enough),emitted_nil]
    exact ⟨rfl,by simp,by simp,by simp⟩
  | succ n ih =>
    cases batches with
    | nil => exact ⟨rfl,by simp,by simp,by simp⟩
    | cons batch more =>
      have few := Nat.le_of_succ_le_succ enough
      obtain ⟨count,stream⟩ := numbered_header base more
      have count_later := emitted_length (base.numbered more) few
      cases more with
      | nil =>
        refine ⟨?_,?_,?_,?_⟩
        · simp [emitted,BatchStreamHelper.encode_packet,count]
        · simp [emitted,BatchStreamHelper.encode_packet,stream]
        · simp [emitted]
        · intro packet last
          simp only [emitted,emitted_nil,List.getLast?_singleton,Option.some.injEq] at last
          subst last
          cases finish : base.finish_partition <;>
            simp [emitted,BatchStreamHelper.encode_packet,BatchStreamHelper.numbered,
              BatchStreamHelper.mark_finish,BatchStreamHelper.count_up,finish]
      | cons next rest =>
        have later := ih (base.numbered (next :: rest)) few
        have keeps : base.numbered (next :: rest) = base.count_up := rfl
        rw [keeps] at later count_later
        have some_later : (emitted n base.count_up (next :: rest)).1 ≠ [] := by
          intro none_
          rw [none_] at count_later
          simp at count_later
        rw [emitted,keeps]
        refine ⟨?_,?_,?_,?_⟩
        · rw [List.map_cons,later.batch_seq,List.length_cons,List.range'_succ]
          rfl
        · intro packet member
          rcases List.mem_cons.mp member with rfl | member
          · rfl
          · exact later.stream_seq packet member
        · intro packet member
          rw [List.dropLast_cons_of_ne_nil some_later] at member
          rcases List.mem_cons.mp member with rfl | member
          · rfl
          · exact later.unmarked packet member
        · intro packet last
          rw [List.getLast?_cons_of_ne_nil some_later] at last
          have ends := later.last packet last
          have finish : base.count_up.finish_partition = base.finish_partition := rfl
          have numbers : base.count_up.rs_header.batch_seq = base.rs_header.batch_seq + 1 := rfl
          rw [finish,numbers] at ends
          rw [List.length_cons,Nat.add_comm _ 1,← Nat.add_assoc]
          exact ends

private theorem first_numbered (h : BatchStreamHelper) (stream : List (Option Bytes)) (finish : Bool) :
    NumberedStream (h.next_stream finish) (retried stream 0 [] (h.next_stream finish)).1 ∧
      (retried stream 0 [] (h.next_stream finish)).1.length = packet_count stream := by
  have enough : (bodies none stream).length ≤ stream.length + 1 := bodies_length_le none stream
  rw [retried_first]
  obtain ⟨batch_seq,stream_seq,unmarked,last⟩ := emitted_numbered ((h.next_stream finish).rewind 0) enough
  exact ⟨⟨batch_seq,stream_seq,unmarked,last⟩,emitted_length _ enough⟩

/-- The numbers of the streams from some stream on. -/
structure NumberedFrom (h : BatchStreamHelper) (streams : List (List Packet)) : Prop where
  batch_seq : streams.flatten.map (fun packet => packet.header.batch_seq) =
    List.range' (h.rs_header.batch_seq + 1) streams.flatten.length
  stream_seq : ∀ i stream, streams[i]? = some stream → ∀ packet ∈ stream,
    packet.header.stream_seq = h.rs_header.stream_seq + i + 1
  unmarked : ∀ packet ∈ streams.flatten.dropLast, packet.header.stage = h.rs_header.stage
  marked : ∀ packet, streams.flatten.getLast? = some packet → packet.header.stage = FINISH_STATUS ∧
    packet.header.total_batches = (h.rs_header.batch_seq + streams.flatten.length : Nat) ∧
    packet.header.total_streams = (h.rs_header.stream_seq + streams.length : Nat)
  present : ∀ stream ∈ streams, stream ≠ []

theorem NumberedFrom.single {h : BatchStreamHelper} {packets : List Packet} (some_packet : packets ≠ [])
    (numbered : NumberedStream (h.next_stream true) packets) : NumberedFrom h [packets] := by
  refine ⟨?_,?_,?_,?_,?_⟩
  · simpa using numbered.batch_seq
  · intro j stream found packet member
    cases j with
    | zero =>
      cases found
      exact numbered.stream_seq packet member
    | succ j => simp at found
  · simpa using numbered.unmarked
  · intro packet last
    have ends := numbered.last packet (by simpa using last)
    simpa using ends
  · simpa using some_packet

theorem NumberedFrom.cons {h h' : BatchStreamHelper} {packets : List Packet} {later : List (List Packet)}
    (some_packet : packets ≠ []) (some_stream : later ≠ [])
    (numbered : NumberedStream (h.next_stream false) packets) (others : NumberedFrom h' later)
    (batch_seq : h'.rs_header.batch_seq = h.rs_header.batch_seq + packets.length)
    (stream_seq : h'.rs_header.stream_seq = h.rs_header.stream_seq + 1)
    (stage : h'.rs_header.stage = h.rs_header.stage) : NumberedFrom h (packets :: later) := by
  have later_packet : later.flatten ≠ [] := by
    obtain ⟨stream,rest,rfl⟩ := List.exists_cons_of_ne_nil some_stream
    rw [List.flatten_cons,ne_eq,List.append_eq_nil_iff]
    exact fun both => others.present stream List.mem_cons_self both.1
  refine ⟨?_,?_,?_,?_,?_⟩
  · rw [List.flatten_cons,List.map_append,numbered.batch_seq,others.batch_seq,List.length_append,batch_seq,
      next_stream_batch_seq,Nat.add_right_comm,List.range'_append_1]
  · intro j stream found packet member
    cases j with
    | zero =>
      cases found
      exact numbered.stream_seq packet member
    | succ j =>
      have number := others.stream_seq j stream found packet member
      omega
  · intro packet member
    rw [List.flatten_cons,List.dropLast_append_of_ne_nil later_packet] at member
    rcases List.mem_append.mp member with inside | inside
    · obtain ⟨start,last,rfl⟩ : ∃ start last, packets = start ++ [last] :=
        ⟨_,_,(List.dropLast_concat_getLast some_packet).symm⟩
      rcases List.mem_append.mp inside with early | final
      · exact numbered.unmarked packet (by rw [List.dropLast_concat]; exact early)
      · have ends := numbered.last packet (by rw [List.mem_singleton.mp final]; simp)
        simpa using ends
    · rw [others.unmarked packet inside,stage]
  · intro packet last
    rw [List.flatten_cons,List.getLast?_append_of_ne_nil _ later_packet] at last
    obtain ⟨mark,batches,streams⟩ := others.marked packet last
    refine ⟨mark,?_,?_⟩
    · rw [batches,batch_seq,List.flatten_cons,List.length_append,Nat.add_assoc]
    · rw [streams,stream_seq,List.length_cons,Nat.add_right_comm,Nat.add_assoc]
  · intro stream member
    rcases List.mem_cons.mp member with rfl | member
    · exact some_packet
    · exact others.present stream member

theorem push_numbered {streams : List (List (Option Bytes) × Bool)} (ordered : Ordered streams)
    (h : BatchStreamHelper) (i : Nat) : NumberedFrom h (push (fun _ => []) i h streams) := by
  induction streams generalizing h i with
  | nil => exact ⟨rfl,by simp [push],by simp [push],by simp [push],by simp [push]⟩
  | cons first rest ih =>
    obtain ⟨stream,finish⟩ := first
    obtain ⟨numbered,count⟩ := first_numbered h stream finish
    have some_packet : (retried stream 0 [] (h.next_stream finish)).1 ≠ [] := by
      rw [← List.length_pos_iff,count]
      exact List.length_pos_iff.mpr (bodies_ne_nil none stream)
    rw [push]
    cases rest with
    | nil =>
      obtain rfl : finish = true := ordered
      exact .single some_packet numbered
    | cons next rest =>
      obtain ⟨more,ordered⟩ := ordered
      simp only at more
      subst more
      have state := emitted_state (stream.length + 1) ((h.next_stream false).rewind 0) (bodies none stream)
      rw [← first_state,Nat.min_eq_right (bodies_length_le none stream)] at state
      refine .cons some_packet (by simp [push]) numbered (ih ordered _ (i + 1)) ?_ ?_ ?_
      · rw [state,count]
        rfl
      · rw [state]
        rfl
      · rw [state]
        rfl

/-- Each stream is pushed as if it had been pushed at once, and the numbers are right. -/
structure Idempotent (data_type : String) (batches_per_stream : Nat) (tries : Nat → List Nat)
    (batches : List (Option Bytes)) : Prop where
  same : push_partition data_type batches_per_stream tries batches =
    push_partition data_type batches_per_stream (fun _ => []) batches
  numbered : Numbered (push_partition data_type batches_per_stream tries batches)

/-- Every stream recovers from its failed attempts. -/
def Recoverable (batches_per_stream : Nat) (tries : Nat → List Nat) (batches : List (Option Bytes)) : Prop :=
  ∀ i stream finish, (streams batches_per_stream batches)[i]? = some (stream,finish) →
    Recovers stream finish (tries i)

theorem push_partition_numbered (data_type : String) (batches_per_stream : Nat) (batches : List (Option Bytes)) :
    Numbered (push_partition data_type batches_per_stream (fun _ => []) batches) := by
  have enough : (Upcoming.of batches).batches.length ≤ batches.length := by rw [Upcoming.batches_of]
  obtain ⟨ordered,_⟩ := _generate_batch_streams_ordered batches_per_stream enough
  obtain ⟨batch_seq,stream_seq,unmarked,marked,_⟩ :=
    push_numbered ordered (BatchStreamHelper.create data_type) 0
  refine ⟨batch_seq,fun i stream found packet member => ?_,fun packet member => ?_,fun packet last => ?_⟩
  · simpa [BatchStreamHelper.create] using stream_seq i stream found packet member
  · rw [unmarked packet member]
    simp [BatchStreamHelper.create,FINISH_STATUS]
  · simpa [BatchStreamHelper.create,push_partition,streams] using marked packet last

/-- The last attempts emit what undisturbed first ones would have emitted, with the right
numbers, exactly when no stream is tried again after an attempt that took no packet, and
the last stream, if it has several packets, is not tried again after an attempt that took
them all. -/
theorem push_retries (data_type : String) (batches_per_stream : Nat) (tries : Nat → List Nat)
    (batches : List (Option Bytes)) :
    Idempotent data_type batches_per_stream tries batches ↔ Recoverable batches_per_stream tries batches := by
  have enough : (Upcoming.of batches).batches.length ≤ batches.length := by rw [Upcoming.batches_of]
  obtain ⟨ordered,_⟩ := _generate_batch_streams_ordered batches_per_stream enough
  have fresh : Fresh (BatchStreamHelper.create data_type) := ⟨Nat.le_refl _,by simp [BatchStreamHelper.create,FINISH_STATUS]⟩
  have same_iff : push tries 0 (BatchStreamHelper.create data_type) (streams batches_per_stream batches) = _ ↔ _ :=
    push_eq_iff ordered fresh 0
  simp only [Nat.zero_add] at same_iff
  constructor
  · exact fun idempotent => same_iff.mp idempotent.same
  · intro recoverable
    have same := same_iff.mpr recoverable
    refine ⟨same,?_⟩
    rw [push_partition,same]
    exact push_partition_numbered data_type batches_per_stream batches

/-- Two batches in one stream; the second attempt comes after one that took both packets. -/
theorem push_retried_marked : ¬ ∀ data_type batches_per_stream tries batches, 1 ≤ batches_per_stream →
    Idempotent data_type batches_per_stream tries batches := by
  intro always
  have idempotent := always "object" 2 (fun _ => [2]) [some [1],some [2]] (by decide)
  have same := idempotent.same
  revert same
  decide

end Eggroll.BatchStream
