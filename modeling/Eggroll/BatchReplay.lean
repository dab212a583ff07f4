import Mathlib.Data.List.Induction
import Eggroll.Library.Replay
import Eggroll.PushRetries

/-! Streams of a tag that PutBatch runs receive more than once, or in part: the status
(`_BatchStreamStatus`) overwrites what it notes for a batch and adds up what it notes for a
stream. A run takes the lock of the tag, so the deliveries come one after another. -/
namespace Eggroll.BatchReplay
open Library Format BatchStream

/-- The loop of `PutBatchTask.run` over the packets its broker gives: it stops where one
raises, and what the status noted stays. -/
def receive (accepts : Bytes → Bool) (bss : BatchStreamStatus) (txn : Store.Db) :
    List Packet → BatchStreamStatus × Store.Db × Bool
  | [] => (bss,txn,true)
  | batch :: rest =>
    match put_batch accepts bss txn batch with
    | (txn',some bss') => receive accepts bss' txn' rest
    | (txn',none) => (bss,txn',false)

/-- The first `taken` packets of a stream. The run returns, or raises behind them: a broker
that gives nothing for too long is a TimeoutError. -/
structure Delivery where
  stream : Nat
  taken : Nat
  returned : Bool
deriving Repr, DecidableEq

def run (accepts : Bytes → Bool) (s : BatchStreamStatus × Store.Db) (packets : List Packet) (returned : Bool) :
    BatchStreamStatus × Store.Db :=
  let received := receive accepts s.1 s.2 packets
  (if received.2.2 && returned then received.1.check_finish else received.1,received.2.1)

/-- The number of pairs that `count_batch` is given for a packet; there is none when the
packet raises. -/
def batch_pairs (accepts : Bytes → Bool) (batch : Packet) : Option Nat :=
  let (pairs,ending) :=
    if batch.data.isEmpty then ([],.returned)
    else BinBatch.read_batch (batch.data.length + 1) (some batch.data)
  match putPairs accepts pairs ∅, ending with
  | (_,count,none), .returned => some count
  | _, _ => none

/-- The streams of a tag as the sender numbers them; the receiver can read and store them. -/
structure Sent where
  accepts : Bytes → Bool
  streams : List (List Packet)
  numbered : Numbered streams
  readable : ∀ packet ∈ streams.flatten, (batch_pairs accepts packet).isSome

namespace Sent
variable (sent : Sent)

def stream (i : Nat) : List Packet := (sent.streams[i]?).getD []

def pairs (packet : Packet) : Nat := (batch_pairs sent.accepts packet).getD 0

def packets (d : Delivery) : List Packet := (sent.stream d.stream).take d.taken

/-- The status after the deliveries, from `s` on. -/
def deliver (s : BatchStreamStatus × Store.Db) (deliveries : List Delivery) : BatchStreamStatus × Store.Db :=
  deliveries.foldl (fun s d => run sent.accepts s (sent.packets d) d.returned) s

def status (deliveries : List Delivery) (db : Store.Db) : BSS :=
  (sent.deliver (BatchStreamStatus.create,db) deliveries).1.wait_finish

def Whole (d : Delivery) : Prop := (sent.stream d.stream).length ≤ d.taken ∧ d.returned = true

def once : List Delivery :=
  (List.range sent.streams.length).map fun i => ⟨i,(sent.stream i).length,true⟩

end Sent

/-- Deliveries in any order, of each stream at least once as a whole. -/
structure Replay where
  sent : Sent
  deliveries : List Delivery
  covered : ∀ i < sent.streams.length, ∃ d ∈ deliveries, d.stream = i ∧ sent.Whole d

/-- Two answers of `wait_finish` that are equal as Python compares them. -/
structure Agree (first second : BSS) : Prop where
  is_finished : first.is_finished = second.is_finished
  total_batches : first.total_batches = second.total_batches
  total_streams : first.total_streams = second.total_streams
  total_pairs : first.total_pairs = second.total_pairs
  batch_seq_to_pair_counter : ∀ k,
    first.batch_seq_to_pair_counter.lookup k = second.batch_seq_to_pair_counter.lookup k
  stream_seq_to_pair_counter : ∀ k,
    first.stream_seq_to_pair_counter.lookup k = second.stream_seq_to_pair_counter.lookup k
  stream_seq_to_batch_seq : ∀ k,
    first.stream_seq_to_batch_seq.lookup k = second.stream_seq_to_batch_seq.lookup k

namespace Replay
variable (replay : Replay)

/-- The status is the one of each stream delivered once. -/
def Insensitive : Prop :=
  ∀ db, Agree (replay.sent.status replay.deliveries db) (replay.sent.status replay.sent.once db)

/-- No packet that carries pairs comes twice. -/
def Apart : Prop :=
  replay.deliveries.Pairwise fun d e => d.stream = e.stream →
    ∀ packet ∈ (replay.sent.stream d.stream).take (min d.taken e.taken), replay.sent.pairs packet = 0

/-- A stream that breaks off is delivered as a whole later. -/
def Resumed : List Delivery → Prop
  | [] => True
  | d :: after => (0 < d.taken → d.taken < (replay.sent.stream d.stream).length →
      ∃ e ∈ after, e.stream = d.stream ∧ (replay.sent.stream d.stream).length ≤ e.taken) ∧ Resumed after

end Replay

def record (bss : BatchStreamStatus) (header : RollSiteHeader) (count : Nat) : BatchStreamStatus :=
  let counted := { bss.count_batch header count with data_type := some header.data_type }
  if header.stage = FINISH_STATUS then counted.set_done header else counted

private theorem putPairs_txn (accepts : Bytes → Bool) (pairs : List Pair) (txn txn' : Store.Db) :
    (putPairs accepts pairs txn).2 = (putPairs accepts pairs txn').2 := by
  induction pairs generalizing txn txn' with
  | nil => rfl
  | cons pair rest ih =>
    simp only [putPairs,Store.put]
    cases accepts pair.1 with
    | true => simp [ih (txn.insert pair.1 pair.2) (txn'.insert pair.1 pair.2)]
    | false => rfl

theorem put_batch_record (accepts : Bytes → Bool) (bss : BatchStreamStatus) (txn : Store.Db) (batch : Packet) :
    (put_batch accepts bss txn batch).2 = (batch_pairs accepts batch).map (record bss batch.header) := by
  unfold put_batch batch_pairs
  generalize (if batch.data.isEmpty = true then (([],.returned) : List Pair × Ending)
    else BinBatch.read_batch (batch.data.length + 1) (some batch.data)) = read
  obtain ⟨pairs,ending⟩ := read
  have same := putPairs_txn accepts pairs txn ∅
  simp only
  generalize putPairs accepts pairs ∅ = fresh at same
  generalize putPairs accepts pairs txn = stored at same
  obtain ⟨_,count,refused⟩ := fresh
  obtain ⟨_,_,_⟩ := stored
  cases same
  cases refused with
  | some e => rfl
  | none => cases ending <;> rfl

/-- What `count_batch` is given for a packet. -/
abbrev Note := RollSiteHeader × ℕ

def Sent.note (sent : Sent) (packet : Packet) : Note := (packet.header,sent.pairs packet)

/-- The status that the notes make, one after another. -/
structure Noted (bss : BatchStreamStatus) (notes : List Note) : Prop where
  batches : ∀ k, bss.batch_seq_to_pair_counter.lookup k =
    (valuesOf k (notes.map fun note => (note.1.batch_seq,note.2))).getLast?
  pairs : ∀ k, bss.stream_seq_to_pair_counter.lookup k =
    reduceAll (· + ·) (valuesOf k (notes.map fun note => (note.1.stream_seq,note.2)))
  last : ∀ k, bss.stream_seq_to_batch_seq.lookup k =
    (valuesOf k (notes.map fun note => (note.1.stream_seq,note.1.batch_seq))).getLast?
  finish : (bss.stage = "done" ↔ ∃ note ∈ notes, note.1.stage = FINISH_STATUS) ∧
    bss.total_batches = (((notes.filter fun note => note.1.stage = FINISH_STATUS).getLast?.map
      fun note => note.1.total_batches).getD (-1)) ∧
    bss.total_streams = (((notes.filter fun note => note.1.stage = FINISH_STATUS).getLast?.map
      fun note => note.1.total_streams).getD (-1))

private theorem create_noted : Noted BatchStreamStatus.create [] :=
  ⟨fun _ => rfl,fun _ => rfl,fun _ => rfl,by simp [BatchStreamStatus.create]⟩

theorem Noted.record {bss : BatchStreamStatus} {notes : List Note} (noted : Noted bss notes)
    (header : RollSiteHeader) (count : ℕ) : Noted (record bss header count) (notes ++ [(header,count)]) := by
  have counters : (BatchReplay.record bss header count).batch_seq_to_pair_counter =
        bss.batch_seq_to_pair_counter.insert header.batch_seq count ∧
      (BatchReplay.record bss header count).stream_seq_to_pair_counter =
        bss.stream_seq_to_pair_counter.insert header.stream_seq
          ((bss.stream_seq_to_pair_counter.lookup header.stream_seq).getD 0 + count) ∧
      (BatchReplay.record bss header count).stream_seq_to_batch_seq =
        bss.stream_seq_to_batch_seq.insert header.stream_seq header.batch_seq := by
    unfold BatchReplay.record
    split <;> exact ⟨rfl,rfl,rfl⟩
  obtain ⟨batches,pairs,last⟩ := counters
  refine ⟨fun k => ?_,fun k => ?_,fun k => ?_,?_⟩
  · rw [batches,List.map_append,List.map_singleton,valuesOf_append,valuesOf_singleton]
    by_cases same : header.batch_seq = k
    · subst same
      simp [AList.lookup_insert]
    · rw [AList.lookup_insert_ne (Ne.symm same),noted.batches]
      simp [same]
  · rw [pairs,List.map_append,List.map_singleton,valuesOf_append,valuesOf_singleton]
    by_cases same : header.stream_seq = k
    · subst same
      rw [AList.lookup_insert,if_pos rfl,reduceAll_concat,noted.pairs]
      cases reduceAll (· + ·) (valuesOf header.stream_seq (notes.map fun note => (note.1.stream_seq,note.2))) with
      | none => simp
      | some sum => rfl
    · rw [AList.lookup_insert_ne (Ne.symm same),noted.pairs]
      simp [same]
  · rw [last,List.map_append,List.map_singleton,valuesOf_append,valuesOf_singleton]
    by_cases same : header.stream_seq = k
    · subst same
      simp [AList.lookup_insert]
    · rw [AList.lookup_insert_ne (Ne.symm same),noted.last]
      simp [same]
  · obtain ⟨done,total_batches,total_streams⟩ := noted.finish
    by_cases finish : header.stage = FINISH_STATUS
    · simp [BatchReplay.record,finish,BatchStreamStatus.set_done]
    · simp only [BatchReplay.record,if_neg finish]
      refine ⟨?_,?_,?_⟩
      · rw [show (bss.count_batch header count).stage = bss.stage from rfl,done]
        simp [finish]
      · rw [show (bss.count_batch header count).total_batches = bss.total_batches from rfl,total_batches]
        simp [finish]
      · rw [show (bss.count_batch header count).total_streams = bss.total_streams from rfl,total_streams]
        simp [finish]

theorem Noted.check_finish {bss : BatchStreamStatus} {notes : List Note} (noted : Noted bss notes) :
    Noted bss.check_finish notes := by
  unfold BatchStreamStatus.check_finish
  split
  · exact ⟨noted.batches,noted.pairs,noted.last,noted.finish⟩
  · exact noted

namespace Sent
variable (sent : Sent)

private theorem packets_mem {d : Delivery} {packet : Packet} (member : packet ∈ sent.packets d) :
    packet ∈ sent.streams.flatten := by
  have inside := List.mem_of_mem_take member
  rw [stream] at inside
  cases found : sent.streams[d.stream]? with
  | none => simp [found] at inside
  | some stream =>
    rw [found] at inside
    exact List.mem_flatten.mpr ⟨stream,List.mem_of_getElem? found,inside⟩

private theorem receive_noted {bss : BatchStreamStatus} {notes : List Note} (noted : Noted bss notes) (txn : Store.Db)
    (packets : List Packet) (inside : ∀ packet ∈ packets, packet ∈ sent.streams.flatten) :
    ∃ bss' txn', receive sent.accepts bss txn packets = (bss',txn',true) ∧
      Noted bss' (notes ++ packets.map sent.note) ∧ bss'.stream_finish_event = bss.stream_finish_event := by
  induction packets generalizing bss txn notes with
  | nil => exact ⟨bss,txn,rfl,by simpa using noted,rfl⟩
  | cons packet rest ih =>
    obtain ⟨count,read⟩ := Option.isSome_iff_exists.mp (sent.readable packet (inside packet List.mem_cons_self))
    have recorded := put_batch_record sent.accepts bss txn packet
    rw [read,Option.map_some] at recorded
    obtain ⟨bss',txn',received,noted',event⟩ :=
      ih (noted.record packet.header count) (put_batch sent.accepts bss txn packet).1
        fun p member => inside p (List.mem_cons_of_mem _ member)
    refine ⟨bss',txn',?_,?_,?_⟩
    · rw [receive,show put_batch sent.accepts bss txn packet =
        ((put_batch sent.accepts bss txn packet).1,some (BatchReplay.record bss packet.header count)) from
        Prod.ext rfl recorded]
      exact received
    · simpa [note,Sent.pairs,read] using noted'
    · rw [event]
      unfold BatchReplay.record
      split <;> rfl

def notes (deliveries : List Delivery) : List Note := deliveries.flatMap fun d => (sent.packets d).map sent.note

private theorem deliver_append (s : BatchStreamStatus × Store.Db) (deliveries : List Delivery) (d : Delivery) :
    sent.deliver s (deliveries ++ [d]) = run sent.accepts (sent.deliver s deliveries) (sent.packets d) d.returned := by
  simp [deliver]

private theorem notes_append (deliveries : List Delivery) (d : Delivery) :
    sent.notes (deliveries ++ [d]) = sent.notes deliveries ++ (sent.packets d).map sent.note := by
  simp [notes]

private theorem run_noted {s : BatchStreamStatus × Store.Db} {notes : List Note} (noted : Noted s.1 notes)
    (packets : List Packet) (inside : ∀ packet ∈ packets, packet ∈ sent.streams.flatten) (returned : Bool) :
    ∃ bss, Noted bss (notes ++ packets.map sent.note) ∧ bss.stream_finish_event = s.1.stream_finish_event ∧
      (run sent.accepts s packets returned).1 = if returned then bss.check_finish else bss := by
  obtain ⟨bss,txn,received,noted',event⟩ := sent.receive_noted noted s.2 packets inside
  exact ⟨bss,noted',event,by simp [run,received]⟩

private theorem deliver_noted (db : Store.Db) (deliveries : List Delivery) :
    Noted (sent.deliver (BatchStreamStatus.create,db) deliveries).1 (sent.notes deliveries) := by
  induction deliveries using List.reverseRecOn with
  | nil => exact create_noted
  | append_singleton earlier d ih =>
    obtain ⟨bss,noted,_,ran⟩ := sent.run_noted ih (sent.packets d) (fun _ => sent.packets_mem) d.returned
    rw [deliver_append,notes_append,ran]
    split
    · exact noted.check_finish
    · exact noted

def Seen (notes : List Note) : Prop := ∀ note, note ∈ notes ↔ ∃ packet ∈ sent.streams.flatten, sent.note packet = note

private theorem notes_seen {deliveries : List Delivery}
    (covered : ∀ i < sent.streams.length, ∃ d ∈ deliveries, d.stream = i ∧ sent.Whole d) :
    sent.Seen (sent.notes deliveries) := by
  intro note
  simp only [notes,List.mem_flatMap,List.mem_map]
  constructor
  · rintro ⟨d,_,packet,inside,rfl⟩
    exact ⟨packet,sent.packets_mem inside,rfl⟩
  · rintro ⟨packet,inside,rfl⟩
    obtain ⟨stream,member,inside⟩ := List.mem_flatten.mp inside
    obtain ⟨i,found⟩ := List.mem_iff_getElem?.mp member
    obtain ⟨d,delivered,rfl,all,_⟩ := covered i (List.getElem?_eq_some_iff.mp found).1
    have whole : sent.packets d = stream := by
      rw [packets,List.take_of_length_le all,Sent.stream,found,Option.getD_some]
    exact ⟨d,delivered,packet,whole ▸ inside,rfl⟩

private theorem batch_seq_mem (k : ℕ) :
    (∃ packet ∈ sent.streams.flatten, packet.header.batch_seq = k) ↔ 1 ≤ k ∧ k ≤ sent.streams.flatten.length := by
  rw [← List.mem_map,sent.numbered.batch_seq,List.mem_range'_1]
  omega

private theorem batch_seq_inj {first second : Packet} (inside : first ∈ sent.streams.flatten)
    (inside' : second ∈ sent.streams.flatten) (same : first.header.batch_seq = second.header.batch_seq) :
    first = second := by
  have distinct : (sent.streams.flatten.map fun packet => packet.header.batch_seq).Nodup := by
    rw [sent.numbered.batch_seq]
    exact List.nodup_range'
  exact List.inj_on_of_nodup_map distinct inside inside' same

private theorem finish_totals {packet : Packet} (inside : packet ∈ sent.streams.flatten)
    (finish : packet.header.stage = FINISH_STATUS) :
    packet.header.total_batches = sent.streams.flatten.length ∧ packet.header.total_streams = sent.streams.length := by
  have some_packet := List.ne_nil_of_mem inside
  rw [← List.dropLast_concat_getLast some_packet,List.mem_append,List.mem_singleton] at inside
  rcases inside with early | rfl
  · exact absurd finish (sent.numbered.unmarked packet early)
  · exact (sent.numbered.marked _ (List.getLast?_eq_some_getLast some_packet)).2

private theorem finish_note (some_packet : sent.streams.flatten ≠ []) :
    ∃ packet ∈ sent.streams.flatten, packet.header.stage = FINISH_STATUS :=
  ⟨_,List.getLast_mem some_packet,(sent.numbered.marked _ (List.getLast?_eq_some_getLast some_packet)).1⟩

private theorem totals_seen {bss : BatchStreamStatus} {notes : List Note} (noted : Noted bss notes)
    (seen : sent.Seen notes) (some_packet : sent.streams.flatten ≠ []) :
    bss.total_batches = sent.streams.flatten.length ∧ bss.total_streams = sent.streams.length := by
  obtain ⟨packet,inside,finish⟩ := sent.finish_note some_packet
  have marked : sent.note packet ∈ notes.filter fun note => note.1.stage = FINISH_STATUS :=
    List.mem_filter.mpr ⟨(seen _).mpr ⟨packet,inside,rfl⟩,decide_eq_true finish⟩
  have last := List.getLast?_eq_some_getLast (List.ne_nil_of_mem marked)
  obtain ⟨member,finish'⟩ := List.mem_filter.mp (List.mem_of_getLast? last)
  obtain ⟨packet',inside',same⟩ := (seen _).mp member
  rw [← same] at finish'
  have totals := sent.finish_totals inside' (of_decide_eq_true finish')
  obtain ⟨_,total_batches,total_streams⟩ := noted.finish
  rw [total_batches,total_streams,last,← same]
  exact totals

private theorem batches_seen {bss : BatchStreamStatus} {notes : List Note} (noted : Noted bss notes)
    (seen : sent.Seen notes) (k : ℕ) :
    k ∈ bss.batch_seq_to_pair_counter ↔ 1 ≤ k ∧ k ≤ sent.streams.flatten.length := by
  rw [← sent.batch_seq_mem k,← AList.lookup_isSome,noted.batches,List.getLast?_isSome]
  constructor
  · intro some_value
    obtain ⟨count,member⟩ := List.exists_mem_of_ne_nil _ some_value
    obtain ⟨note,member,same⟩ := List.mem_map.mp (mem_valuesOf.mp member)
    obtain ⟨packet,inside,rfl⟩ := (seen note).mp member
    exact ⟨packet,inside,congrArg Prod.fst same⟩
  · rintro ⟨packet,inside,rfl⟩
    have noted : (packet.header.batch_seq,sent.pairs packet) ∈ notes.map fun note => (note.1.batch_seq,note.2) :=
      List.mem_map.mpr ⟨sent.note packet,(seen _).mpr ⟨packet,inside,rfl⟩,rfl⟩
    exact List.ne_nil_of_mem (mem_valuesOf.mpr noted)

private theorem check_finish_seen {bss : BatchStreamStatus} {notes : List Note} (noted : Noted bss notes)
    (seen : sent.Seen notes) (some_packet : sent.streams.flatten ≠ []) :
    bss.check_finish.stream_finish_event = true := by
  obtain ⟨packet,inside,finish⟩ := sent.finish_note some_packet
  have stage := noted.finish.1.mpr ⟨_,(seen (sent.note packet)).mpr ⟨packet,inside,rfl⟩,finish⟩
  have keys := Counts.keys_length (sent.batches_seen noted seen)
  rw [BatchStreamStatus.check_finish,if_pos ⟨stage,by rw [(sent.totals_seen noted seen some_packet).1,keys]⟩]

private theorem check_finish_keeps (bss : BatchStreamStatus) (set : bss.stream_finish_event = true) :
    bss.check_finish.stream_finish_event = true := by
  unfold BatchStreamStatus.check_finish
  split
  · rfl
  · exact set

private theorem event_noted (db : Store.Db) (deliveries : List Delivery)
    (set : (sent.deliver (BatchStreamStatus.create,db) deliveries).1.stream_finish_event = true) :
    sent.notes deliveries ≠ [] := by
  induction deliveries using List.reverseRecOn with
  | nil => simp [deliver,BatchStreamStatus.create] at set
  | append_singleton earlier d ih =>
    obtain ⟨bss,noted,event,ran⟩ :=
      sent.run_noted (sent.deliver_noted db earlier) (sent.packets d) (fun _ => sent.packets_mem) d.returned
    rw [deliver_append,ran] at set
    rw [← notes_append] at noted
    by_cases before : bss.stream_finish_event = true
    · rw [notes_append]
      exact List.append_ne_nil_of_left_ne_nil (ih (event ▸ before)) _
    · have done : bss.stage = "done" := by
        by_contra doing
        simp [BatchStreamStatus.check_finish,doing,before] at set
      obtain ⟨note,member,_⟩ := noted.finish.1.mp done
      exact List.ne_nil_of_mem member

private theorem deliver_event (db : Store.Db) {deliveries : List Delivery}
    (covered : ∀ i < sent.streams.length, ∃ d ∈ deliveries, d.stream = i ∧ sent.Whole d) :
    (sent.deliver (BatchStreamStatus.create,db) deliveries).1.stream_finish_event = true ↔
      sent.streams.flatten ≠ [] := by
  constructor
  · intro set empty
    obtain ⟨note,member⟩ := List.exists_mem_of_ne_nil _ (sent.event_noted db deliveries set)
    obtain ⟨packet,inside,_⟩ := (sent.notes_seen covered note).mp member
    simp [empty] at inside
  · intro some_packet
    induction deliveries using List.reverseRecOn with
    | nil =>
      obtain ⟨packet,inside⟩ := List.exists_mem_of_ne_nil _ some_packet
      obtain ⟨stream,member,_⟩ := List.mem_flatten.mp inside
      obtain ⟨i,found⟩ := List.mem_iff_getElem?.mp member
      obtain ⟨d,none,_⟩ := covered i (List.getElem?_eq_some_iff.mp found).1
      simp at none
    | append_singleton earlier d ih =>
      obtain ⟨bss,noted,event,ran⟩ :=
        sent.run_noted (sent.deliver_noted db earlier) (sent.packets d) (fun _ => sent.packets_mem) d.returned
      rw [deliver_append,ran]
      by_cases before : ∀ i < sent.streams.length, ∃ d ∈ earlier, d.stream = i ∧ sent.Whole d
      · rw [ih before] at event
        split
        · exact check_finish_keeps bss event
        · exact event
      · have returned : d.returned = true := by
          push Not at before
          obtain ⟨i,within,missing⟩ := before
          obtain ⟨e,member,same,whole⟩ := covered i within
          rcases List.mem_append.mp member with early | last
          · exact absurd whole (missing e early same)
          · exact List.mem_singleton.mp last ▸ whole.2
        rw [if_pos returned]
        rw [← notes_append] at noted
        exact sent.check_finish_seen noted (sent.notes_seen covered) some_packet

private theorem stream_seq_eq {i : ℕ} {packet : Packet} (inside : packet ∈ sent.stream i) :
    packet.header.stream_seq = i + 1 := by
  rw [stream] at inside
  cases found : sent.streams[i]? with
  | none => simp [found] at inside
  | some stream =>
    rw [found] at inside
    exact sent.numbered.stream_seq i stream found packet inside

def batch_seqs (i : ℕ) : List ℕ := (sent.stream i).map fun packet => packet.header.batch_seq

def sizes (i : ℕ) : List ℕ := (sent.stream i).map sent.pairs

private theorem stream_distinct (i : ℕ) : (sent.batch_seqs i).Nodup := by
  have distinct : (sent.streams.flatten.map fun packet => packet.header.batch_seq).Nodup := by
    rw [sent.numbered.batch_seq]
    exact List.nodup_range'
  rw [batch_seqs,stream]
  cases found : sent.streams[i]? with
  | none => simp
  | some stream => exact distinct.sublist ((List.sublist_flatten_of_mem (List.mem_of_getElem? found)).map _)

private theorem stream_values (value : Note → ℕ) (deliveries : List Delivery) (i : ℕ) :
    valuesOf (i + 1) ((sent.notes deliveries).map fun note => (note.1.stream_seq,value note)) =
      (deliveries.filter fun d => d.stream = i).flatMap fun d =>
        ((sent.stream i).map fun packet => value (sent.note packet)).take d.taken := by
  have one (d : Delivery) : valuesOf (i + 1)
      (((sent.packets d).map sent.note).map fun note => (note.1.stream_seq,value note)) =
        if d.stream = i then ((sent.stream i).map fun packet => value (sent.note packet)).take d.taken else [] := by
    rw [List.map_map,valuesOf]
    by_cases same : d.stream = i
    · subst same
      rw [if_pos rfl,List.filter_eq_self.mpr]
      · rw [packets,List.map_map,List.map_take]
        rfl
      · intro pair member
        obtain ⟨packet,inside,rfl⟩ := List.mem_map.mp member
        exact decide_eq_true (sent.stream_seq_eq (List.mem_of_mem_take inside))
    · rw [if_neg same,List.map_eq_nil_iff,List.filter_eq_nil_iff]
      intro pair member
      obtain ⟨packet,inside,rfl⟩ := List.mem_map.mp member
      have number := sent.stream_seq_eq (List.mem_of_mem_take inside)
      simp [note,number,same]
  induction deliveries with
  | nil => rfl
  | cons d rest ih =>
    rw [notes,List.flatMap_cons,List.map_append,valuesOf_append,one,← notes,ih,List.filter_cons]
    by_cases same : d.stream = i <;> simp [same]

private theorem stream_values_zero (value : Note → ℕ) (deliveries : List Delivery) :
    valuesOf 0 ((sent.notes deliveries).map fun note => (note.1.stream_seq,value note)) = [] := by
  rw [List.eq_nil_iff_forall_not_mem]
  intro v member
  obtain ⟨note,noted,same⟩ := List.mem_map.mp (mem_valuesOf.mp member)
  obtain ⟨d,_,delivered⟩ := List.mem_flatMap.mp noted
  obtain ⟨packet,inside,rfl⟩ := List.mem_map.mp delivered
  have number := sent.stream_seq_eq (List.mem_of_mem_take inside)
  rw [show (sent.note packet).1.stream_seq = packet.header.stream_seq from rfl,number] at same
  simp at same

end Sent

private theorem reduceAll_add (values : List ℕ) :
    reduceAll (· + ·) values = if values = [] then none else some values.sum := by
  induction values using List.reverseRecOn with
  | nil => rfl
  | append_singleton earlier n ih =>
    rw [reduceAll_concat,ih]
    by_cases none : earlier = []
    · simp [none]
    · simp [none]

namespace Replay
variable (replay : Replay)

def of (i : ℕ) : List Delivery := replay.deliveries.filter fun d => d.stream = i

private theorem of_whole {i : ℕ} (some_packet : replay.sent.stream i ≠ []) :
    ∃ d ∈ replay.of i, (replay.sent.stream i).length ≤ d.taken := by
  have within : i < replay.sent.streams.length := by
    by_contra outside
    rw [Sent.stream,List.getElem?_eq_none (Nat.le_of_not_lt outside)] at some_packet
    exact some_packet rfl
  obtain ⟨d,member,rfl,all,_⟩ := replay.covered i within
  exact ⟨d,List.mem_filter.mpr ⟨member,by simp⟩,all⟩

private theorem counted_once_iff :
    (∀ i, ((replay.of i).flatMap fun d => (replay.sent.sizes i).take d.taken).sum =
        (replay.sent.sizes i).sum) ↔ replay.Apart := by
  have one (i : ℕ) : ((replay.of i).flatMap fun d => (replay.sent.sizes i).take d.taken).sum =
        (replay.sent.sizes i).sum ↔
      replay.deliveries.Pairwise fun d e => d.stream = i → e.stream = i →
        ∀ packet ∈ (replay.sent.stream i).take (min d.taken e.taken), replay.sent.pairs packet = 0 := by
    have shared (d e : Delivery) : (∀ n ∈ (replay.sent.sizes i).take (min d.taken e.taken), n = 0) ↔
        ∀ packet ∈ (replay.sent.stream i).take (min d.taken e.taken), replay.sent.pairs packet = 0 := by
      simp [Sent.sizes,← List.map_take]
    by_cases none : replay.sent.stream i = []
    · have all (ds : List Delivery) : ds.Pairwise fun d e => d.stream = i → e.stream = i →
          ∀ packet ∈ (replay.sent.stream i).take (min d.taken e.taken), replay.sent.pairs packet = 0 :=
        List.pairwise_of_forall fun d e _ _ => by simp [none]
      have nothing : (replay.of i).flatMap (fun d => (replay.sent.sizes i).take d.taken) = [] :=
        List.flatMap_eq_nil_iff.mpr fun d _ => by simp [Sent.sizes,none]
      refine ⟨fun _ => all _,fun _ => ?_⟩
      rw [nothing]
      simp [Sent.sizes,none]
    · obtain ⟨d,member,all⟩ := replay.of_whole none
      rw [sum_flatMap_take ⟨d,member,by simpa [Sent.sizes] using all⟩]
      simp only [shared,of,List.pairwise_filter,decide_eq_true_eq]
  simp only [one,Apart,List.pairwise_iff_getElem]
  constructor
  · intro each a b first second before same
    exact each _ a b first second before rfl same.symm
  · rintro apart i a b first second before rfl same
    exact apart a b first second before same.symm

private theorem followed_iff (deliveries : List Delivery) :
    (∀ i, Followed (replay.sent.stream i).length Delivery.taken (deliveries.filter fun d => d.stream = i)) ↔
      replay.Resumed deliveries := by
  induction deliveries with
  | nil => exact ⟨fun _ => trivial,fun _ _ => trivial⟩
  | cons d after ih =>
    have now : (∃ e ∈ after.filter (fun e => e.stream = d.stream), (replay.sent.stream d.stream).length ≤ e.taken) ↔
        ∃ e ∈ after, e.stream = d.stream ∧ (replay.sent.stream d.stream).length ≤ e.taken := by
      simp [List.mem_filter,and_assoc]
    rw [Resumed]
    constructor
    · intro each
      have own := each d.stream
      simp only [List.filter_cons,decide_true,if_true,Followed] at own
      refine ⟨fun begun short => now.mp (own.1 begun short),ih.mp fun i => ?_⟩
      have other := each i
      by_cases same : d.stream = i
      · exact same ▸ own.2
      · simpa [List.filter_cons,same] using other
    · rintro ⟨resumed,later⟩ i
      have each := ih.mpr later i
      by_cases same : d.stream = i
      · subst same
        simp only [List.filter_cons,decide_true,if_true]
        exact ⟨fun begun short => now.mpr (resumed begun short),each⟩
      · simpa [List.filter_cons,same] using each

private theorem last_noted_iff :
    (∀ i, ((replay.of i).flatMap fun d => (replay.sent.batch_seqs i).take d.taken).getLast? =
        (replay.sent.batch_seqs i).getLast?) ↔ replay.Resumed replay.deliveries := by
  refine Iff.trans (forall_congr' fun i => ?_) (replay.followed_iff replay.deliveries)
  by_cases none : replay.sent.stream i = []
  · have followed (ds : List Delivery) : Followed 0 Delivery.taken ds := by
      induction ds with
      | nil => trivial
      | cons d after ih => exact ⟨fun _ short => absurd short (Nat.not_lt_zero _),ih⟩
    simp [Sent.batch_seqs,none,followed]
  · obtain ⟨d,member,all⟩ := replay.of_whole none
    have some_item : replay.sent.batch_seqs i ≠ [] := by simpa [Sent.batch_seqs] using none
    have length : (replay.sent.batch_seqs i).length = (replay.sent.stream i).length := List.length_map _
    rw [← length] at all ⊢
    refine Iff.trans ?_ (getLast?_flatMap_take (replay.sent.stream_distinct i) some_item _)
    rw [or_iff_right]
    · rfl
    · intro silent
      have nothing := List.flatMap_eq_nil_iff.mp silent d member
      rw [List.take_of_length_le all] at nothing
      exact some_item nothing

private theorem sizes_nil_iff (i : ℕ) :
    (replay.of i).flatMap (fun d => (replay.sent.sizes i).take d.taken) = [] ↔ replay.sent.stream i = [] := by
  constructor
  · intro silent
    by_contra some_packet
    obtain ⟨d,member,all⟩ := replay.of_whole some_packet
    have nothing := List.flatMap_eq_nil_iff.mp silent d member
    rw [List.take_of_length_le (by simpa [Sent.sizes] using all)] at nothing
    exact some_packet (by simpa [Sent.sizes] using nothing)
  · intro none
    exact List.flatMap_eq_nil_iff.mpr fun d _ => by simp [Sent.sizes,none]

end Replay

private theorem Sent.once_covered (sent : Sent) :
    ∀ i < sent.streams.length, ∃ d ∈ sent.once, d.stream = i ∧ sent.Whole d :=
  fun i within => ⟨_,List.mem_map.mpr ⟨i,List.mem_range.mpr within,rfl⟩,rfl,Nat.le_refl _,rfl⟩

def Sent.single (sent : Sent) : Replay := ⟨sent,sent.once,sent.once_covered⟩

private theorem Sent.single_apart (sent : Sent) : sent.single.Apart := by
  rw [Replay.Apart,show sent.single.deliveries = sent.once from rfl,once,List.pairwise_map]
  refine List.pairwise_lt_range.imp ?_
  intro i j before same
  exact absurd same (Nat.ne_of_lt before)

private theorem Sent.single_resumed (sent : Sent) : sent.single.Resumed sent.single.deliveries := by
  rw [show sent.single.deliveries = sent.once from rfl,once]
  induction List.range sent.streams.length with
  | nil => trivial
  | cons i after ih => exact ⟨fun _ short => absurd short (Nat.lt_irrefl _),ih⟩

namespace Sent
variable (sent : Sent) {first second : BatchStreamStatus} {notes notes' : List Note}

private theorem batches_agree (noted : Noted first notes) (noted' : Noted second notes') (seen : sent.Seen notes)
    (seen' : sent.Seen notes') (k : ℕ) :
    first.batch_seq_to_pair_counter.lookup k = second.batch_seq_to_pair_counter.lookup k := by
  have of_packet {notes : List Note} (seen : sent.Seen notes) {count : ℕ}
      (member : count ∈ valuesOf k (notes.map fun note => (note.1.batch_seq,note.2))) :
      ∃ packet ∈ sent.streams.flatten, packet.header.batch_seq = k ∧ sent.pairs packet = count := by
    obtain ⟨note,member,same⟩ := List.mem_map.mp (mem_valuesOf.mp member)
    obtain ⟨packet,inside,rfl⟩ := (seen note).mp member
    exact ⟨packet,inside,congrArg Prod.fst same,congrArg Prod.snd same⟩
  have keys := (sent.batches_seen noted seen k).trans (sent.batches_seen noted' seen' k).symm
  rw [← AList.lookup_isSome,← AList.lookup_isSome,noted.batches,noted'.batches,List.getLast?_isSome,
    List.getLast?_isSome] at keys
  rw [noted.batches,noted'.batches]
  refine getLast?_eq_of_same (fun count member count' member' => ?_) (not_iff_not.mp keys)
  obtain ⟨packet,inside,number,rfl⟩ := of_packet seen member
  obtain ⟨packet',inside',number',rfl⟩ := of_packet seen' member'
  rw [sent.batch_seq_inj inside inside' (number.trans number'.symm)]

private theorem totals_agree (noted : Noted first notes) (noted' : Noted second notes') (seen : sent.Seen notes)
    (seen' : sent.Seen notes') :
    first.total_batches = second.total_batches ∧ first.total_streams = second.total_streams := by
  by_cases none : sent.streams.flatten = []
  · have silent {notes : List Note} (seen : sent.Seen notes) : notes = [] := by
      rw [List.eq_nil_iff_forall_not_mem]
      intro note member
      obtain ⟨packet,inside,_⟩ := (seen note).mp member
      simp [none] at inside
    obtain ⟨_,total_batches,total_streams⟩ := noted.finish
    obtain ⟨_,total_batches',total_streams'⟩ := noted'.finish
    rw [total_batches,total_streams,total_batches',total_streams',silent seen,silent seen']
    exact ⟨rfl,rfl⟩
  · obtain ⟨total_batches,total_streams⟩ := sent.totals_seen noted seen none
    obtain ⟨total_batches',total_streams'⟩ := sent.totals_seen noted' seen' none
    rw [total_batches,total_streams,total_batches',total_streams']
    exact ⟨rfl,rfl⟩

end Sent

private theorem reduceAll_add_eq_iff {first second : List ℕ} (empty : first = [] ↔ second = []) :
    reduceAll (· + ·) first = reduceAll (· + ·) second ↔ first.sum = second.sum := by
  rw [reduceAll_add,reduceAll_add]
  by_cases none : first = []
  · rw [if_pos none,if_pos (empty.mp none),none,empty.mp none]
    exact ⟨fun _ => rfl,fun _ => rfl⟩
  · rw [if_neg none,if_neg fun given => none (empty.mpr given),Option.some.injEq]

namespace Replay
variable (replay : Replay) (db : Store.Db)

def bss : BatchStreamStatus := (replay.sent.deliver (BatchStreamStatus.create,db) replay.deliveries).1

theorem noted : Noted (replay.bss db) (replay.sent.notes replay.deliveries) :=
  replay.sent.deliver_noted db replay.deliveries

private theorem pair_counter (i : ℕ) : (replay.bss db).stream_seq_to_pair_counter.lookup (i + 1) =
    reduceAll (· + ·) ((replay.of i).flatMap fun d => (replay.sent.sizes i).take d.taken) := by
  rw [(replay.noted db).pairs,replay.sent.stream_values fun note => note.2]
  rfl

private theorem last_counter (i : ℕ) : (replay.bss db).stream_seq_to_batch_seq.lookup (i + 1) =
    ((replay.of i).flatMap fun d => (replay.sent.batch_seqs i).take d.taken).getLast? := by
  rw [(replay.noted db).last,replay.sent.stream_values fun note => note.1.batch_seq]
  rfl

private theorem pairs_agree_iff : (∀ k, (replay.bss db).stream_seq_to_pair_counter.lookup k =
    (replay.sent.single.bss db).stream_seq_to_pair_counter.lookup k) ↔ replay.Apart := by
  have once (i : ℕ) := replay.sent.single.counted_once_iff.mpr replay.sent.single_apart i
  have at_stream (i : ℕ) : (replay.bss db).stream_seq_to_pair_counter.lookup (i + 1) =
      (replay.sent.single.bss db).stream_seq_to_pair_counter.lookup (i + 1) ↔
        ((replay.of i).flatMap fun d => (replay.sent.sizes i).take d.taken).sum = (replay.sent.sizes i).sum := by
    rw [pair_counter,pair_counter,reduceAll_add_eq_iff,once]
    · rfl
    · rw [sizes_nil_iff,sizes_nil_iff]
      rfl
  rw [← replay.counted_once_iff]
  constructor
  · exact fun agree i => (at_stream i).mp (agree (i + 1))
  · intro counted k
    cases k with
    | zero =>
      rw [(replay.noted db).pairs,(replay.sent.single.noted db).pairs,replay.sent.stream_values_zero fun note => note.2,
        replay.sent.single.sent.stream_values_zero fun note => note.2]
    | succ i => exact (at_stream i).mpr (counted i)

private theorem last_agree_iff : (∀ k, (replay.bss db).stream_seq_to_batch_seq.lookup k =
    (replay.sent.single.bss db).stream_seq_to_batch_seq.lookup k) ↔ replay.Resumed replay.deliveries := by
  have once (i : ℕ) := replay.sent.single.last_noted_iff.mpr replay.sent.single_resumed i
  have at_stream (i : ℕ) : (replay.bss db).stream_seq_to_batch_seq.lookup (i + 1) =
      (replay.sent.single.bss db).stream_seq_to_batch_seq.lookup (i + 1) ↔
        ((replay.of i).flatMap fun d => (replay.sent.batch_seqs i).take d.taken).getLast? =
          (replay.sent.batch_seqs i).getLast? := by
    rw [last_counter,last_counter,once]
    rfl
  rw [← replay.last_noted_iff]
  constructor
  · exact fun agree i => (at_stream i).mp (agree (i + 1))
  · intro ended k
    cases k with
    | zero =>
      rw [(replay.noted db).last,(replay.sent.single.noted db).last,
        replay.sent.stream_values_zero fun note => note.1.batch_seq,
        replay.sent.single.sent.stream_values_zero fun note => note.1.batch_seq]
    | succ i => exact (at_stream i).mpr (ended i)

end Replay

/-- The status does not depend on the replays exactly when no packet with pairs comes twice,
and no stream is left broken off after its last batch came. -/
theorem replay_insensitive (replay : Replay) :
    replay.Insensitive ↔ replay.Apart ∧ replay.Resumed replay.deliveries := by
  let sent := replay.sent
  have seen := sent.notes_seen replay.covered
  have seen' := sent.notes_seen sent.once_covered
  constructor
  · intro insensitive
    have agree := insensitive ∅
    exact ⟨(replay.pairs_agree_iff ∅).mp agree.stream_seq_to_pair_counter,
      (replay.last_agree_iff ∅).mp agree.stream_seq_to_batch_seq⟩
  · rintro ⟨apart,resumed⟩ db
    have noted := replay.noted db
    have noted' := sent.single.noted db
    obtain ⟨total_batches,total_streams⟩ := sent.totals_agree noted noted' seen seen'
    have batches := sent.batches_agree noted noted' seen seen'
    refine ⟨?_,total_batches,total_streams,Counts.total_congr batches,batches,
      (replay.pairs_agree_iff db).mpr apart,(replay.last_agree_iff db).mpr resumed⟩
    exact Bool.eq_iff_iff.mpr
      ((sent.deliver_event db replay.covered).trans (sent.deliver_event db sent.once_covered).symm)

def lone : Packet := ⟨⟨"object",1,1,1,1,FINISH_STATUS⟩,BinBatch.batchOf [([7],[1])]⟩

private theorem lone_numbered : Numbered [[lone]] := by
  refine ⟨rfl,fun i stream found packet member => ?_,by simp,fun packet last => ?_⟩
  · cases i with
    | zero =>
      cases found
      rw [List.mem_singleton.mp member]
      rfl
    | succ i => simp at found
  · cases last
    exact ⟨rfl,rfl,rfl⟩

/-- Its stream, delivered twice. -/
theorem replay_counted_twice : ¬ ∀ replay : Replay, replay.Insensitive := by
  intro always
  have counted := (always ⟨⟨fun _ => true,[[lone]],lone_numbered,by decide⟩,[⟨0,1,true⟩,⟨0,1,true⟩],
    fun i within => ⟨⟨0,1,true⟩,by simp,(Nat.lt_one_iff.mp within).symm,Nat.le_refl 1,rfl⟩⟩ ∅).stream_seq_to_pair_counter 1
  revert counted
  decide

end Eggroll.BatchReplay
