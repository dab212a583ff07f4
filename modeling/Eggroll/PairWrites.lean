import Eggroll.ByteBuffer

/-! Sequences of `PairBinWriter.write` on every buffer of `_format.py`: the bytearray that the
writer indexes itself, an `ArrayByteBuffer`, and a `FileByteBuffer`, which grows instead of
raising IndexError. What a failed write has left behind the offset is never read. -/
namespace Eggroll.PairWrites
open Library Library.PyBytes Format

/-- A file at a position; it was not opened for appending. -/
structure FileByteBuffer where
  content : Bytes
  offset : Nat
deriving Repr, DecidableEq

namespace FileByteBuffer

/-- `file.write`: a gap before the position is filled with zeros. -/
def write_bytes (value : Bytes) : EStateM PyError FileByteBuffer Unit := fun f =>
  let gap := List.replicate (f.offset - f.content.length) 0
  .ok () ⟨(f.content ++ gap).take f.offset ++ value ++ f.content.drop (f.offset + value.length),
    f.offset + value.length⟩

def write_int32 (value : Int) : EStateM PyError FileByteBuffer Unit :=
  if inInt32 value then write_bytes (packInt value) else throw .structError

def write_fields (key value : Bytes) : EStateM PyError FileByteBuffer Unit := do
  write_int32 key.length
  write_bytes key
  write_int32 value.length
  write_bytes value

def restoring (body : EStateM PyError FileByteBuffer Unit) : EStateM PyError FileByteBuffer Unit := fun f =>
  match body f with
  | .error (.indexError remaining required) g => .error (.indexError remaining required) { g with offset := f.offset }
  | done => done

def write_pair (key value : Bytes) : EStateM PyError FileByteBuffer Unit := restoring (write_fields key value)

def write_head : EStateM PyError FileByteBuffer Unit := do
  write_bytes MAGIC_NUM
  write_bytes PROTOCOL_VERSION
  write_int32 0
  write_int32 0

def below (f : FileByteBuffer) : Bytes := f.content.take f.offset

end FileByteBuffer

/-- What a writer of pairs does on a state that has an offset and bytes below it. -/
structure PairWriter (σ : Type) where
  head : EStateM PyError σ Unit
  write : Pair → EStateM PyError σ Unit
  offset : σ → Int
  below : σ → Bytes

/-- `PairBinWriter(data=…)`. -/
def inlined (size : Nat) : PairWriter (PairBinWriter size) where
  head := PairBinWriter.write_head
  write := fun pair => PairBinWriter.write pair.1 pair.2
  offset := fun w => w.offset
  below := PairBinWriter.content

/-- `PairBinWriter(pair_buffer=ArrayByteBuffer(…))`. -/
def buffered : PairWriter ArrayByteBuffer where
  head := ArrayByteBuffer.write_head
  write := fun pair => ArrayByteBuffer.write_pair pair.1 pair.2
  offset := ArrayByteBuffer.offset
  below := fun b => slice b.buffer 0 b.offset

/-- `PairBinWriter(pair_buffer=FileByteBuffer(…))`. -/
def filed : PairWriter FileByteBuffer where
  head := FileByteBuffer.write_head
  write := fun pair => FileByteBuffer.write_pair pair.1 pair.2
  offset := fun f => f.offset
  below := FileByteBuffer.below

def succeeded : List Pair → List (Except PyError Unit) → List Pair
  | pair :: pairs, .ok _ :: answers => pair :: succeeded pairs answers
  | _ :: pairs, .error _ :: answers => succeeded pairs answers
  | _, _ => []

/-- Both readers take the bytes and yield the pairs, no more and no fewer. -/
structure ReadBack (text : Bytes) (pairs : List Pair) : Prop where
  inlined : ∃ r, PairBinReader.create text = .ok r ∧
    ∀ fuel, pairs.length < fuel → r.read_all fuel = (pairs,.returned)
  buffered : ∃ b, ArrayByteBuffer.reader text = .ok b ∧
    ∀ fuel, pairs.length < fuel → (b.read_all fuel).1 = pairs ∧ (b.read_all fuel).2.1 = .returned

private theorem readBack_frames (pairs : List Pair) (encodable : ∀ pair ∈ pairs, Format.Encodable pair) :
    ReadBack (header ++ frames pairs) pairs := by
  obtain ⟨r,created,ahead⟩ := PairBinReader.create_header (frames pairs)
  have yields (fuel : Nat) (enough : pairs.length < fuel) : r.read_all fuel = (pairs,.returned) :=
    PairBinReader.read_all_frames pairs encodable ahead fuel enough
  refine ⟨⟨r,created,yields⟩,?_⟩
  have both := PairBinReader.read_head_buffered ⟨header ++ frames pairs,0⟩ (.create _) rfl
  unfold PairBinReader.create at created
  unfold ArrayByteBuffer.reader
  obtain ⟨_,s,b,left,right,same⟩ | ⟨e,_,_,left,_,_⟩ := both.split
  · rw [left] at created
    rw [right]
    cases created
    refine ⟨b,rfl,fun fuel enough => ?_⟩
    rw [PairBinReader.read_all_buffered fuel same,yields fuel enough]
    exact ⟨rfl,rfl⟩
  · rw [left] at created
    cases created

namespace PairWriter
variable {σ : Type} (W : PairWriter σ)

/-- No call raises anything but IndexError. -/
def OnlyOverflows (start : σ) (pairs : List Pair) : Prop :=
  ∀ answer ∈ (calls W.write pairs start).1, ∀ e, answer = .error e → PairBinWriter.IsIndexError e

/-- The bytes up to the offset are read back as the pairs of the calls that returned, and a
call that raised has moved nothing. -/
structure Atomic (start : σ) (pairs : List Pair) : Prop where
  readBack : ReadBack (W.below (calls W.write pairs start).2) (succeeded pairs (calls W.write pairs start).1)
  unchanged : ∀ first pair rest, pairs = first ++ pair :: rest →
    ∀ e t, W.write pair (calls W.write first start).2 = .error e t →
      W.offset t = W.offset (calls W.write first start).2 ∧ W.below t = W.below (calls W.write first start).2

/-- The same for every sequence of calls on a writer that was made of this buffer. -/
def AtomicOn (blank : σ) (pairs : List Pair) : Prop :=
  ∀ start, W.head blank = .ok () start → W.OnlyOverflows start pairs → W.Atomic start pairs

/-- What one call does, in states that satisfy `inv`. -/
structure Sound (inv : σ → Prop) : Prop where
  head : ∀ {s t}, inv s → W.below s = [] → W.head s = .ok () t → inv t ∧ W.below t = header
  done : ∀ {s t pair}, inv s → pair.1 ≠ [] → W.write pair s = .ok () t →
    inv t ∧ Format.Encodable pair ∧ W.below t = W.below s ++ frame pair
  overflow : ∀ {s t pair remaining required}, inv s → W.write pair s = .error (.indexError remaining required) t →
    inv t ∧ W.offset t = W.offset s ∧ W.below t = W.below s

namespace Sound
variable {W} {inv : σ → Prop}

theorem run (sound : W.Sound inv) (pairs : List Pair) (nonempty : ∀ pair ∈ pairs, pair.1 ≠ []) {start : σ}
    (holds : inv start) (only : W.OnlyOverflows start pairs) :
    inv (calls W.write pairs start).2 ∧
      (∀ pair ∈ succeeded pairs (calls W.write pairs start).1, Format.Encodable pair) ∧
      W.below (calls W.write pairs start).2 =
        W.below start ++ frames (succeeded pairs (calls W.write pairs start).1) := by
  induction pairs generalizing start with
  | nil => exact ⟨holds,fun _ member => absurd member List.not_mem_nil,(List.append_nil _).symm⟩
  | cons pair rest ih =>
    have others : ∀ p ∈ rest, p.1 ≠ [] := fun p member => nonempty p (List.mem_cons_of_mem _ member)
    unfold OnlyOverflows at only
    cases call : W.write pair start with
    | ok a t =>
      simp only [calls,call,List.mem_cons,forall_eq_or_imp,succeeded] at only ⊢
      obtain ⟨kept,encodable,added⟩ := sound.done holds (nonempty pair List.mem_cons_self) call
      obtain ⟨last,all,text⟩ := ih others kept only.2
      exact ⟨last,⟨encodable,all⟩,by rw [text,added,frames_cons,List.append_assoc]⟩
    | error e t =>
      simp only [calls,call,List.mem_cons,forall_eq_or_imp,succeeded] at only ⊢
      cases e with
      | indexError remaining required =>
        obtain ⟨kept,-,same⟩ := sound.overflow holds call
        rw [← same]
        exact ih others kept only.2
      | valueError message => exact (only.1 _ rfl).elim
      | typeError => exact (only.1 _ rfl).elim
      | structError => exact (only.1 _ rfl).elim
      | overflowError => exact (only.1 _ rfl).elim

private theorem atomicOn (sound : W.Sound inv) {blank : σ} (holds : inv blank) (empty : W.below blank = [])
    (pairs : List Pair) (nonempty : ∀ pair ∈ pairs, pair.1 ≠ []) : W.AtomicOn blank pairs := by
  intro start made only
  obtain ⟨ready,headed⟩ := sound.head holds empty made
  obtain ⟨-,encodable,text⟩ := sound.run pairs nonempty ready only
  constructor
  · rw [text,headed]
    exact readBack_frames _ encodable
  · intro first pair rest split e t raised
    have parts := calls_append W.write first (pair :: rest) start
    have before : W.OnlyOverflows start first := by
      intro answer member
      apply only answer
      rw [split,parts]
      exact List.mem_append_left _ member
    have now : PairBinWriter.IsIndexError e := by
      apply only (.error e) _ e rfl
      rw [split,parts]
      simp only [calls,raised]
      exact List.mem_append_right _ List.mem_cons_self
    obtain ⟨reached,-,-⟩ := sound.run first
      (fun p member => nonempty p (split ▸ List.mem_append_left _ member)) ready before
    cases e with
    | indexError remaining required => exact (sound.overflow reached raised).2
    | valueError message => exact now.elim
    | typeError => exact now.elim
    | structError => exact now.elim
    | overflowError => exact now.elim

theorem transfer {τ : Type} {V : PairWriter τ} {related : σ → τ → Prop} (sound : W.Sound inv)
    (heads : Simulates related W.head V.head) (writes : ∀ pair, Simulates related (W.write pair) (V.write pair))
    (offsets : ∀ s t, related s t → V.offset t = W.offset s) (belows : ∀ s t, related s t → V.below t = W.below s) :
    V.Sound (fun t => ∃ s, inv s ∧ related s t) := by
  constructor
  · rintro t t' ⟨s,holds,same⟩ empty made
    obtain ⟨_,s',u,left,right,after⟩ | ⟨_,_,_,_,right,_⟩ := (heads s t same).split
    · cases right.symm.trans made
      obtain ⟨ready,headed⟩ := sound.head holds ((belows s t same).symm.trans empty) left
      exact ⟨⟨s',ready,after⟩,(belows _ _ after).trans headed⟩
    · cases right.symm.trans made
  · rintro t t' pair ⟨s,holds,same⟩ nonempty done
    obtain ⟨_,s',u,left,right,after⟩ | ⟨_,_,_,_,right,_⟩ := (writes pair s t same).split
    · cases right.symm.trans done
      obtain ⟨kept,encodable,added⟩ := sound.done holds nonempty left
      exact ⟨⟨s',kept,after⟩,encodable,by rw [belows _ _ after,belows _ _ same,added]⟩
    · cases right.symm.trans done
  · rintro t t' pair remaining required ⟨s,holds,same⟩ raised
    obtain ⟨_,_,_,_,right,_⟩ | ⟨e,s',u,left,right,after⟩ := (writes pair s t same).split
    · cases right.symm.trans raised
    · cases right.symm.trans raised
      obtain ⟨kept,still,text⟩ := sound.overflow holds left
      refine ⟨⟨s',kept,after⟩,?_,?_⟩
      · rw [offsets _ _ after,offsets _ _ same,still]
      · rw [belows _ _ after,belows _ _ same,text]

end Sound
end PairWriter

private theorem inlined_sound (size : Nat) : (inlined size).Sound (fun _ => True) where
  head := fun _ blank made => ⟨trivial,PairBinWriter.write_head_content blank made⟩
  done := fun _ nonempty done => ⟨trivial,PairBinWriter.write_done nonempty done⟩
  overflow := fun _ raised =>
    ⟨trivial,congrArg Nat.cast (PairBinWriter.write_rollback raised).1,(PairBinWriter.write_rollback raised).2⟩

private theorem buffered_sound (size : Nat) :
    buffered.Sound (fun b => ∃ w : PairBinWriter size, True ∧ PairBinWriter.Buffered w b) := by
  apply (inlined_sound size).transfer
  · exact PairBinWriter.write_head_buffered
  · exact fun pair => PairBinWriter.write_buffered pair.1 pair.2
  · rintro w b rfl
    rfl
  · rintro w b rfl
    exact slice_of_le w.data (Nat.zero_le _) (w.sized.symm ▸ w.inside)

namespace FileByteBuffer

def Inside (f : FileByteBuffer) : Prop := f.offset ≤ f.content.length

private theorem below_length {f : FileByteBuffer} (inside : f.Inside) : f.below.length = f.offset := by
  rw [below,List.length_take,Nat.min_eq_left inside]

theorem write_bytes_adds {f g : FileByteBuffer} {value : Bytes} (inside : f.Inside)
    (done : write_bytes value f = .ok () g) : g.Inside ∧ g.below = f.below ++ value := by
  have length := below_length inside
  have gap : f.offset - f.content.length = 0 := Nat.sub_eq_zero_of_le inside
  cases done
  unfold Inside below at *
  simp only [gap,List.replicate_zero,List.append_nil]
  constructor
  · simp only [List.length_append,length]
    omega
  · rw [List.take_append_of_le_length (by simp only [List.length_append,length]; omega)]
    exact List.take_of_length_le (by simp only [List.length_append,length]; omega)

theorem write_int32_adds {f g : FileByteBuffer} {value : Int} (inside : f.Inside)
    (done : write_int32 value f = .ok () g) :
    inInt32 value = true ∧ g.Inside ∧ g.below = f.below ++ packInt value := by
  unfold write_int32 at done
  split at done
  · rename_i range
    exact ⟨range,write_bytes_adds inside done⟩
  · contradiction

theorem write_head_content {f g : FileByteBuffer} (inside : f.Inside) (blank : f.below = [])
    (done : write_head f = .ok () g) : g.Inside ∧ g.below = header := by
  obtain ⟨_,a,first,rest⟩ := bind_eq_ok done
  obtain ⟨_,b,second,rest⟩ := bind_eq_ok rest
  obtain ⟨_,c,third,last⟩ := bind_eq_ok rest
  obtain ⟨insideA,magic⟩ := write_bytes_adds inside first
  obtain ⟨insideB,version⟩ := write_bytes_adds insideA second
  obtain ⟨-,insideC,head⟩ := write_int32_adds insideB third
  obtain ⟨-,insideD,body⟩ := write_int32_adds insideC last
  refine ⟨insideD,?_⟩
  rw [body,head,version,magic,blank]
  rfl

private theorem write_fields_adds {f g : FileByteBuffer} {pair : Pair} (inside : f.Inside) (nonempty : pair.1 ≠ [])
    (done : write_fields pair.1 pair.2 f = .ok () g) :
    g.Inside ∧ Format.Encodable pair ∧ g.below = f.below ++ frame pair := by
  obtain ⟨_,a,first,rest⟩ := bind_eq_ok done
  obtain ⟨_,b,second,rest⟩ := bind_eq_ok rest
  obtain ⟨_,c,third,last⟩ := bind_eq_ok rest
  obtain ⟨keyRange,insideA,keySize⟩ := write_int32_adds inside first
  obtain ⟨insideB,key⟩ := write_bytes_adds insideA second
  obtain ⟨valueRange,insideC,valueSize⟩ := write_int32_adds insideB third
  obtain ⟨insideD,value⟩ := write_bytes_adds insideC last
  refine ⟨insideD,⟨nonempty,lt_of_inInt32 keyRange,lt_of_inInt32 valueRange⟩,?_⟩
  rw [value,valueSize,key,keySize,frame]
  simp only [List.append_assoc]

private theorem write_fields_raises (key value : Bytes) :
    RaisesOnly (fun e => e = .structError) (write_fields key value) := by
  have bytes (text : Bytes) : RaisesOnly (fun e => e = .structError) (write_bytes text) := by
    intro f e g raised
    cases raised
  have number (n : Int) : RaisesOnly (fun e => e = .structError) (write_int32 n) := by
    intro f e g raised
    unfold write_int32 at raised
    split at raised
    · exact bytes _ f e g raised
    · cases raised
      rfl
  apply (number _).bind
  intro _
  apply (bytes key).bind
  intro _
  apply (number _).bind
  intro _
  exact bytes value

private theorem restoring_eq {body : EStateM PyError FileByteBuffer Unit}
    (raises : RaisesOnly (fun e => e = .structError) body) : restoring body = body := by
  funext f
  unfold restoring
  cases run : body f with
  | ok a g => rfl
  | error e g =>
    cases raises f e g run
    rfl

private theorem write_pair_eq (key value : Bytes) : write_pair key value = write_fields key value := by
  rw [write_pair,restoring_eq (write_fields_raises key value)]

end FileByteBuffer

private theorem filed_sound : filed.Sound FileByteBuffer.Inside where
  head := fun inside blank made => FileByteBuffer.write_head_content inside blank made
  done := by
    intro f g pair inside nonempty done
    dsimp only [filed] at done
    rw [FileByteBuffer.write_pair_eq] at done
    exact FileByteBuffer.write_fields_adds inside nonempty done
  overflow := by
    intro f g pair remaining required _ raised
    dsimp only [filed] at raised
    rw [FileByteBuffer.write_pair_eq] at raised
    cases FileByteBuffer.write_fields_raises _ _ _ _ _ raised

/-- On every buffer, of whatever bytes it was made, the pairs of the calls that returned are
what is read back, and a call that overflowed has changed nothing that can be read. -/
theorem writes_atomic (data : Bytes) (pairs : List Pair) (nonempty : ∀ pair ∈ pairs, pair.1 ≠ []) :
    (inlined data.length).AtomicOn (.untouched data) pairs ∧ buffered.AtomicOn (.create data) pairs ∧
      filed.AtomicOn ⟨data,0⟩ pairs := by
  refine ⟨?_,?_,?_⟩
  · exact (inlined_sound data.length).atomicOn trivial rfl pairs nonempty
  · apply (buffered_sound data.length).atomicOn ⟨.untouched data,trivial,rfl⟩ _ pairs nonempty
    exact slice_of_le data (Nat.le_refl 0) (Nat.zero_le _)
  · exact filed_sound.atomicOn (Nat.zero_le _) rfl pairs nonempty

/-- The second of three pairs overflows at its value, over bytes that the third leaves behind
the offset. -/
theorem writes_atomic_overflowing :
    let data : Bytes := List.replicate 40 7
    let pairs : List Pair := [([1],[2]),([3,3],[4,4,4,4,4,4,4,4]),([5],[])]
    ∃ start, (inlined 40).head (.untouched data) = .ok () start ∧
      (calls (inlined 40).write pairs start).1 = [.ok (),.error (.indexError 4 8),.ok ()] ∧
      ReadBack ((inlined 40).below (calls (inlined 40).write pairs start).2) [([1],[2]),([5],[])] := by
  have run : ∃ start, (inlined 40).head (.untouched (List.replicate 40 7)) = .ok () start ∧
      (calls (inlined 40).write [([1],[2]),([3,3],[4,4,4,4,4,4,4,4]),([5],[])] start).1 =
        [.ok (),.error (.indexError 4 8),.ok ()] := ⟨_,rfl,rfl⟩
  obtain ⟨start,made,answers⟩ := run
  refine ⟨start,made,answers,?_⟩
  have atomic := (writes_atomic (List.replicate 40 7) [([1],[2]),([3,3],[4,4,4,4,4,4,4,4]),([5],[])]
    (by decide)).1 start made
  have only : (inlined 40).OnlyOverflows start [([1],[2]),([3,3],[4,4,4,4,4,4,4,4]),([5],[])] := by
    intro answer member e is
    rw [answers,is] at member
    simp only [List.mem_cons,reduceCtorEq,Except.error.injEq,List.not_mem_nil,or_false,false_or] at member
    rw [member]
    trivial
  have back := (atomic only).readBack
  change ReadBack _ (succeeded _ (calls (inlined 40).write _ start).1) at back
  rw [answers] at back
  exact back

end Eggroll.PairWrites
