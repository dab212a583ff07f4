import Eggroll.Format

/-! Packing pairs into batches of bytes and unpacking them (`transfer_pair.py`):
`pair_to_bin_batch` cuts its input where a buffer is full and starts a larger
buffer for a pair that is too large; `bin_batch_to_pair` reads batch by batch. -/
namespace Eggroll.BinBatch
open Library Format

/-- What an iterator gives: its items, and the error it raises after them, if any. -/
structure Input (α : Type) where
  items : List α
  failure : Option PyError

/-- The buffer `ba` with the writer over it. -/
abbrev Writer := Σ size, PairBinWriter size

structure Encoder where
  writer : Writer
  pair_count : Nat

def bytearray (count : Int) : Except PyError Nat :=
  if count < 0 then .error (.valueError "negative count") else .ok count.toNat

/-- `bytes(ba[0:writer.get_offset()])`, when there is a buffer and it is not empty. -/
def taken : Option Writer → Option Bytes
  | some w => if w.2.data.isEmpty then none else some w.2.content
  | none => none

/-- `commit(bs)`: what the old buffer holds, and a writer over a new one. -/
def commit (bs : Int) (ba : Option Writer) : Except PyError (Option Bytes × Writer) := do
  let size ← bytearray bs
  let writer ← PairBinWriter.create size
  pure (taken ba,⟨size,writer⟩)

inductive Turn
  | next (e : Encoder)
  | broke (e : Encoder)
  | raised (e : PyError)

/-- The body of the `for` loop: the batches it yields and how it ends. A pair written
into a fresh buffer is not counted and not compared with the limit. -/
def turn (sendbuf_size : Int) (limit : Option Int) (e : Encoder) (pair : Pair) :
    List (Option Bytes) × Turn :=
  match e.writer.2.write pair.1 pair.2 with
  | .ok _ w =>
    let after : Encoder := ⟨⟨_,w⟩,e.pair_count + 1⟩
    if limit.any (fun n => n ≤ (after.pair_count : Int)) then ([],.broke after) else ([],.next after)
  | .error (.indexError _ _) w =>
    match commit (max sendbuf_size (pair.1.length + pair.2.length + 1024)) (some ⟨_,w⟩) with
    | .error err => ([],.raised err)
    | .ok (batch,fresh) =>
      match fresh.2.write pair.1 pair.2 with
      | .ok _ w' => ([batch],.next ⟨⟨_,w'⟩,e.pair_count⟩)
      | .error err _ => ([batch],.raised err)
  | .error err _ => ([],.raised err)

/-- After the loop: the last batch, or the error that the outer `except` swallows. -/
def finish (sendbuf_size : Int) (e : Encoder) : List (Option Bytes) × Option PyError :=
  match commit sendbuf_size (some e.writer) with
  | .error err => ([],some err)
  | .ok (batch,_) => ([batch],none)

/-- The `try` block: the batches yielded and the error swallowed, if any. -/
def encode (sendbuf_size : Int) (limit : Option Int) (failure : Option PyError) :
    List Pair → Encoder → List (Option Bytes) × Option PyError
  | [], e =>
    match failure with
    | some err => ([],some err)
    | none => finish sendbuf_size e
  | pair :: rest, e =>
    match turn sendbuf_size limit e pair with
    | (batches,.next e') =>
      let later := encode sendbuf_size limit failure rest e'
      (batches ++ later.1,later.2)
    | (batches,.broke e') =>
      let later := finish sendbuf_size e'
      (batches ++ later.1,later.2)
    | (batches,.raised err) => (batches,some err)

/-- The batches the generator yields and how it ends; `configured` is
`eggroll.rollpair.transferpair.sendbuf.size`. -/
def pair_to_bin_batch (configured : Int) (input : Input Pair) (limit : Option Int)
    (sendbuf_size : Int) : List (Option Bytes) × Ending :=
  let size := if sendbuf_size ≤ 0 then configured else sendbuf_size
  match commit size none with
  | .error err => ([],.raised err)
  | .ok (_,writer) => ((encode size limit input.failure input.items ⟨writer,0⟩).1,.returned)

/-- The body of the `try` in `bin_batch_to_pair`; `len(None)` is a TypeError. -/
def read_batch (fuel : Nat) : Option Bytes → List Pair × Ending
  | none => ([],.raised .typeError)
  | some data =>
    match PairBinReader.create data with
    | .error e => ([],.raised e)
    | .ok r => r.read_all fuel

/-- `bin_batch_to_pair`: an IndexError skips the rest of its batch. -/
def bin_batch_to_pair (fuel : Nat) : List (Option Bytes) → List Pair × Ending
  | [] => ([],.returned)
  | batch :: rest =>
    match read_batch fuel batch with
    | (pairs,.raised (.indexError _ _)) | (pairs,.returned) =>
      let later := bin_batch_to_pair fuel rest
      (pairs ++ later.1,later.2)
    | (pairs,ending) => (pairs,ending)

def batchOf (pairs : List Pair) : Bytes := header ++ frames pairs

/-- The buffer holds the header and the frames of `pending`, the pairs not yet yielded. -/
structure Holds (w : Writer) (pending : List Pair) : Prop where
  content : w.2.content = batchOf pending

theorem Holds.taken {w : Writer} {pending : List Pair} (holds : Holds w pending) :
    taken (some w) = some (batchOf pending) := by
  have filled : w.2.data.isEmpty = false := by
    cases data : w.2.data with
    | cons => rfl
    | nil =>
      have short := congrArg List.length holds.content
      simp only [PairBinWriter.content,data,batchOf,List.take_nil,List.length_nil,
        List.length_append,header_length] at short
      omega
  rw [BinBatch.taken,filled,holds.content]
  rfl

theorem commit_ok (bs : Int) (ba : Option Writer) (room : 16 ≤ bs) :
    ∃ w, commit bs ba = .ok (taken ba,w) ∧ (w.1 : Int) = bs ∧ w.2.offset = 16 ∧ Holds w [] := by
  have size : bytearray bs = .ok bs.toNat := by rw [bytearray,if_neg (by omega)]
  obtain ⟨w,created,offset,content⟩ := PairBinWriter.create_ok bs.toNat (by omega)
  refine ⟨⟨bs.toNat,w⟩,?_,Int.toNat_of_nonneg (by omega),offset,⟨by simp [content,batchOf]⟩⟩
  rw [commit,size]
  simp only [bind,Except.bind,created]
  rfl

theorem Holds.write {w : Writer} {pending : List Pair} (holds : Holds w pending) {pair : Pair}
    (encodable : Encodable pair) (fits : w.2.offset + (frame pair).length ≤ w.1) :
    ∃ w', w.2.write pair.1 pair.2 = .ok () w' ∧ Holds ⟨w.1,w'⟩ (pending ++ [pair]) := by
  obtain ⟨w',done,_,text⟩ := PairBinWriter.write_fits w.2 pair encodable fits
  refine ⟨w',done,⟨?_⟩⟩
  rw [text,holds.content,batchOf,batchOf,frames_append,frames_singleton,List.append_assoc]

theorem turn_ok {sendbuf_size : Int} (room : 16 ≤ sendbuf_size) {e : Encoder}
    {pending : List Pair} (holds : Holds e.writer pending) {pair : Pair}
    (encodable : Encodable pair) :
    ∃ (groups : List (List Pair)) (kept : List Pair) (e' : Encoder),
      turn sendbuf_size none e pair =
        (groups.map (fun group => some (batchOf group)),.next e') ∧
      Holds e'.writer kept ∧ groups.flatten ++ kept = pending ++ [pair] := by
  by_cases fits : e.writer.2.offset + (frame pair).length ≤ e.writer.1
  · obtain ⟨w,done,kept⟩ := holds.write encodable fits
    refine ⟨[],pending ++ [pair],⟨⟨_,w⟩,e.pair_count + 1⟩,?_,kept,rfl⟩
    simp [turn,done]
  · obtain ⟨w,remaining,required,raised,offset,text⟩ :=
      PairBinWriter.write_overflow e.writer.2 pair encodable (Nat.lt_of_not_le fits)
    have back : Holds ⟨e.writer.1,w⟩ pending := ⟨text.trans holds.content⟩
    obtain ⟨fresh,committed,size,start,empty⟩ :=
      commit_ok (max sendbuf_size (pair.1.length + pair.2.length + 1024)) (some ⟨_,w⟩) (by omega)
    obtain ⟨w',done,kept⟩ := empty.write encodable (by rw [frame_length]; omega)
    refine ⟨[pending],[pair],⟨⟨_,w'⟩,e.pair_count⟩,?_,kept,by simp⟩
    simp [turn,raised,committed,done,back.taken]

theorem finish_ok {sendbuf_size : Int} (room : 16 ≤ sendbuf_size) {e : Encoder}
    {pending : List Pair} (holds : Holds e.writer pending) :
    finish sendbuf_size e = ([some (batchOf pending)],none) := by
  obtain ⟨w,committed,_⟩ := commit_ok sendbuf_size (some e.writer) room
  rw [finish,committed,holds.taken]

theorem encode_ok {sendbuf_size : Int} (room : 16 ≤ sendbuf_size) (pairs : List Pair)
    (encodable : ∀ pair ∈ pairs, Encodable pair) {e : Encoder} {pending : List Pair}
    (holds : Holds e.writer pending) :
    ∃ groups : List (List Pair), encode sendbuf_size none none pairs e =
        (groups.map (fun group => some (batchOf group)),none) ∧
      groups.flatten = pending ++ pairs := by
  induction pairs generalizing e pending with
  | nil => exact ⟨[pending],by simp [encode,finish_ok room holds],by simp⟩
  | cons pair rest ih =>
    obtain ⟨first,kept,e',stepped,holds',split⟩ :=
      turn_ok room holds (encodable pair List.mem_cons_self)
    obtain ⟨later,encoded,joined⟩ :=
      ih (fun p member => encodable p (List.mem_cons_of_mem _ member)) holds'
    refine ⟨first ++ later,?_,?_⟩
    · rw [encode,stepped]
      simp [encoded]
    · rw [List.flatten_append,joined,← List.append_assoc,split,List.append_assoc,
        List.singleton_append]

theorem read_batchOf (group : List Pair) (encodable : ∀ pair ∈ group, Encodable pair) (fuel : Nat)
    (enough : group.length < fuel) : read_batch fuel (some (batchOf group)) = (group,.returned) := by
  obtain ⟨r,created,ahead⟩ := PairBinReader.create_header (frames group)
  rw [read_batch,batchOf,created]
  exact PairBinReader.read_all_frames group encodable ahead fuel enough

theorem decode_batches (groups : List (List Pair))
    (encodable : ∀ pair ∈ groups.flatten, Encodable pair) (fuel : Nat)
    (enough : groups.flatten.length < fuel) :
    bin_batch_to_pair fuel (groups.map (fun group => some (batchOf group))) =
      (groups.flatten,.returned) := by
  induction groups with
  | nil => rfl
  | cons group rest ih =>
    rw [List.flatten_cons,List.length_append] at enough
    have now := read_batchOf group (fun p member => encodable p (by simp [member])) fuel (by omega)
    have later := ih (fun p member => encodable p (by rw [List.flatten_cons]; simp only [List.mem_append,member,or_true])) (by omega)
    rw [List.map_cons,bin_batch_to_pair,now]
    simp only [later,List.flatten_cons]

/-- All pairs of one batch, where `bin_batch_to_pair` gets past it. The fuel is enough for
every batch of frames. -/
def decoded (batch : Option Bytes) : Option (List Pair) :=
  match read_batch ((batch.getD []).length + 1) batch with
  | (pairs,.raised (.indexError _ _)) | (pairs,.returned) => some pairs
  | _ => none

def Whole (batch : Option Bytes) : Prop :=
  ∃ group : List Pair, (∀ pair ∈ group, Encodable pair) ∧ batch = some (batchOf group)

theorem length_le_batchOf (group : List Pair) : group.length ≤ (batchOf group).length := by
  induction group with
  | nil => exact Nat.zero_le _
  | cons pair rest ih =>
    simp only [batchOf,frames_cons,List.length_append,frame_length,List.length_cons] at ih ⊢
    omega

theorem decoded_batchOf (group : List Pair) (encodable : ∀ pair ∈ group, Encodable pair) :
    decoded (some (batchOf group)) = some group := by
  have enough := length_le_batchOf group
  rw [decoded,Option.getD_some,read_batchOf group encodable _ (by omega)]

def inflight (batch : Option Bytes) : List Pair := (decoded batch).getD []

theorem Whole.decoded {batch : Option Bytes} (whole : Whole batch) :
    decoded batch = some (inflight batch) := by
  obtain ⟨group,encodable,rfl⟩ := whole
  rw [inflight,decoded_batchOf group encodable,Option.getD_some]

def held (e : Encoder) : List Pair := inflight (some e.writer.2.content)

def Sound (e : Encoder) : Prop := Whole (some e.writer.2.content)

theorem Holds.sound {e : Encoder} {pending : List Pair} (holds : Holds e.writer pending)
    (encodable : ∀ pair ∈ pending, Encodable pair) : Sound e ∧ held e = pending := by
  refine ⟨⟨pending,encodable,by rw [holds.content]⟩,?_⟩
  rw [held,holds.content,inflight,decoded_batchOf pending encodable,Option.getD_some]

theorem Sound.holds {e : Encoder} (sound : Sound e) :
    Holds e.writer (held e) ∧ ∀ pair ∈ held e, Encodable pair := by
  obtain ⟨group,encodable,content⟩ := sound
  have holds : Holds e.writer group := ⟨Option.some.inj content⟩
  rw [(holds.sound encodable).2]
  exact ⟨holds,encodable⟩

theorem commit_holds {bs : Int} {ba : Option Writer} {batch : Option Bytes} {w : Writer}
    (committed : commit bs ba = .ok (batch,w)) : batch = taken ba ∧ Holds w [] := by
  unfold commit at committed
  cases size : bytearray bs with
  | error e => simp [size,bind,Except.bind] at committed
  | ok n =>
    cases created : PairBinWriter.create n with
    | error e => simp [size,created,bind,Except.bind] at committed
    | ok w' =>
      simp only [size,created,bind,Except.bind,pure,Except.pure,Except.ok.injEq,Prod.mk.injEq] at committed
      obtain ⟨rfl,rfl⟩ := committed
      exact ⟨rfl,⟨by rw [PairBinWriter.create_content created]; simp [batchOf]⟩⟩

/-- A turn that does not raise, for a pair of any size: the pair is in the buffer, after
what the buffer held or alone after a whole batch of that. -/
theorem turn_next {sendbuf_size : Int} {e e' : Encoder} {pair : Pair} {batches : List (Option Bytes)}
    (sound : Sound e) (nonempty : pair.1 ≠ [])
    (stepped : turn sendbuf_size none e pair = (batches,.next e')) :
    Sound e' ∧ (∀ batch ∈ batches, Whole batch) ∧
      batches.flatMap inflight ++ held e' = held e ++ [pair] := by
  obtain ⟨holds,encodable⟩ := sound.holds
  have joined (w : Writer) (count : Nat) (pending : List Pair)
      (within : ∀ p ∈ pending, Encodable p) (before : w.2.content = batchOf pending)
      (t : PairBinWriter w.1) (done : w.2.write pair.1 pair.2 = .ok () t) :
      Sound ⟨⟨w.1,t⟩,count⟩ ∧ held ⟨⟨w.1,t⟩,count⟩ = pending ++ [pair] := by
    obtain ⟨written,text⟩ := PairBinWriter.write_done nonempty done
    apply Holds.sound
    · exact ⟨by rw [text,before,batchOf,batchOf,frames_append,frames_singleton,List.append_assoc]⟩
    · intro p member
      rcases List.mem_append.mp member with old | new
      · exact within p old
      · exact List.mem_singleton.mp new ▸ written
  unfold turn at stepped
  split at stepped
  · rename_i w done
    simp only [Option.any_none,Bool.false_eq_true,if_false,Prod.mk.injEq,Turn.next.injEq] at stepped
    obtain ⟨rfl,rfl⟩ := stepped
    obtain ⟨sound',held'⟩ := joined e.writer (e.pair_count + 1) (held e) encodable holds.content w done
    exact ⟨sound',fun _ member => by simp at member,by simpa using held'⟩
  · rename_i w raised
    have back : Holds ⟨_,w⟩ (held e) :=
      ⟨(PairBinWriter.write_rollback raised).2.trans holds.content⟩
    split at stepped
    · simp at stepped
    · rename_i batch fresh committed
      obtain ⟨rfl,empty⟩ := commit_holds committed
      split at stepped
      · rename_i w' done
        simp only [Prod.mk.injEq,Turn.next.injEq] at stepped
        obtain ⟨rfl,rfl⟩ := stepped
        obtain ⟨sound',held'⟩ := joined fresh e.pair_count [] (fun _ member => by simp at member)
          empty.content w' done
        refine ⟨sound',fun b member => ?_,?_⟩
        · rw [List.mem_singleton.mp member,back.taken]
          exact ⟨held e,encodable,rfl⟩
        · rw [held',back.taken]
          simp [inflight,decoded_batchOf (held e) encodable]
      · simp at stepped
  · simp at stepped

theorem finish_done {sendbuf_size : Int} {e : Encoder} {batches : List (Option Bytes)}
    (sound : Sound e) (finished : finish sendbuf_size e = (batches,none)) :
    (∀ batch ∈ batches, Whole batch) ∧ batches.flatMap inflight = held e := by
  obtain ⟨holds,encodable⟩ := sound.holds
  unfold finish at finished
  split at finished
  · simp at finished
  · rename_i batch _ committed
    obtain ⟨rfl,_⟩ := commit_holds committed
    simp only [Prod.mk.injEq,and_true] at finished
    subst finished
    rw [holds.taken]
    refine ⟨fun b member => ?_,by simp [inflight,decoded_batchOf (held e) encodable]⟩
    exact ⟨held e,encodable,List.mem_singleton.mp member⟩

def Produced (configured sendbuf_size : Int) (pairs : List Pair) : Prop :=
  ∃ w, commit (if sendbuf_size ≤ 0 then configured else sendbuf_size) none = .ok (none,w) ∧
    (encode (if sendbuf_size ≤ 0 then configured else sendbuf_size) none none pairs ⟨w,0⟩).2 = none

private theorem turn_unlimited {sendbuf_size : Int} {e e' : Encoder} {pair : Pair}
    {batches : List (Option Bytes)} : turn sendbuf_size none e pair ≠ (batches,.broke e') := by
  intro stepped
  unfold turn at stepped
  split at stepped
  · simp at stepped
  · split at stepped
    · simp at stepped
    · split at stepped <;> simp at stepped
  · simp at stepped

private theorem encode_done {sendbuf_size : Int} (pairs : List Pair) (nonempty : ∀ pair ∈ pairs, pair.1 ≠ [])
    {e : Encoder} (sound : Sound e) {batches : List (Option Bytes)}
    (encoded : encode sendbuf_size none none pairs e = (batches,none)) :
    (∀ batch ∈ batches, Whole batch) ∧ batches.flatMap inflight = held e ++ pairs := by
  induction pairs generalizing e batches with
  | nil =>
    obtain ⟨whole,carried⟩ := finish_done sound encoded
    exact ⟨whole,by rw [carried,List.append_nil]⟩
  | cons pair rest ih =>
    rw [encode] at encoded
    split at encoded
    · rename_i first e' stepped
      obtain ⟨sound',whole,carried⟩ := turn_next sound (nonempty pair List.mem_cons_self) stepped
      simp only [Prod.mk.injEq] at encoded
      obtain ⟨rfl,silent⟩ := encoded
      obtain ⟨later,joined⟩ :=
        ih (fun p member => nonempty p (List.mem_cons_of_mem _ member)) sound' (Prod.ext rfl silent)
      refine ⟨fun batch member => (List.mem_append.mp member).elim (whole batch) (later batch),?_⟩
      rw [List.flatMap_append,joined,← List.append_assoc,carried,List.append_assoc,List.singleton_append]
    · rename_i stepped
      exact (turn_unlimited stepped).elim
    · simp at encoded

theorem Produced.batches {configured sendbuf_size : Int} {pairs : List Pair}
    (produced : Produced configured sendbuf_size pairs) (nonempty : ∀ pair ∈ pairs, pair.1 ≠ []) :
    (∀ batch ∈ (pair_to_bin_batch configured ⟨pairs,none⟩ none sendbuf_size).1, Whole batch) ∧
      (pair_to_bin_batch configured ⟨pairs,none⟩ none sendbuf_size).1.flatMap inflight = pairs := by
  obtain ⟨w,committed,silent⟩ := produced
  have fresh := (commit_holds committed).2
  obtain ⟨sound,empty⟩ := Holds.sound (e := ⟨w,0⟩) fresh (fun _ member => by simp at member)
  have encoded := encode_done pairs nonempty sound (Prod.ext rfl silent)
  rw [empty,List.nil_append] at encoded
  simpa only [pair_to_bin_batch,committed] using encoded

theorem Produced.of_encodable (configured : Int) {sendbuf_size : Int} {pairs : List Pair}
    (encodable : ∀ pair ∈ pairs, Encodable pair) (room : 16 ≤ sendbuf_size) :
    Produced configured sendbuf_size pairs := by
  obtain ⟨w,committed,_,_,empty⟩ := commit_ok sendbuf_size none room
  obtain ⟨groups,encoded,-⟩ := encode_ok room pairs encodable (e := ⟨w,0⟩) empty
  rw [Produced,if_neg (by omega)]
  exact ⟨w,committed,by rw [encoded]⟩

/-- Batches made of an input that does not raise are read back as exactly that input,
wherever the buffers were cut. -/
theorem bin_batch_round_trip (configured sendbuf_size : Int) (pairs : List Pair)
    (encodable : ∀ pair ∈ pairs, Encodable pair) (room : 20 ≤ sendbuf_size) :
    (pair_to_bin_batch configured ⟨pairs,none⟩ none sendbuf_size).2 = .returned ∧
      ∀ fuel, pairs.length < fuel →
        bin_batch_to_pair fuel (pair_to_bin_batch configured ⟨pairs,none⟩ none sendbuf_size).1 =
          (pairs,.returned) := by
  have given : ¬ sendbuf_size ≤ 0 := by omega
  obtain ⟨w,committed,_,_,empty⟩ := commit_ok sendbuf_size none (by omega)
  obtain ⟨groups,encoded,joined⟩ :=
    encode_ok (by omega : 16 ≤ sendbuf_size) pairs encodable (e := ⟨w,0⟩) empty
  rw [List.nil_append] at joined
  simp only [pair_to_bin_batch,if_neg given,committed,encoded,true_and]
  intro fuel enough
  rw [decode_batches groups (joined ▸ encodable) fuel (joined ▸ enough),joined]

/-- Neither pair fits the buffer it meets first. -/
theorem bin_batch_round_trip_overflowing :
    bin_batch_to_pair 3 (pair_to_bin_batch 0 ⟨[([1],[2,3]),([4],[])],none⟩ none 20).1 =
      ([([1],[2,3]),([4],[])],.returned) := by
  refine (bin_batch_round_trip 0 20 _ ?_ (by decide)).2 3 (by decide)
  intro pair member
  rcases List.mem_pair.mp member with rfl | rfl <;> exact ⟨by decide,by decide,by decide⟩

end Eggroll.BinBatch
