import Eggroll.Format

/-! `ArrayByteBuffer` of `_format.py` and the pair reader and writer that go through it (no
`data` given), against those that index the bytes themselves. The buffer keeps its own size
and offset and takes the place of an operation from its caller, if it is given one. -/
namespace Eggroll.Format
open Library Library.PyBytes

structure ArrayByteBuffer where
  buffer : Bytes
  offset : Int
  size : Int
deriving Repr, DecidableEq

/-- `struct.pack_into(">i", buffer, offset, value)`; `none` is `struct.error`. -/
def packInto (buffer : Bytes) (offset value : Int) : Option Bytes :=
  let at_ := if offset < 0 then offset + buffer.length else offset
  if (offset < 0 ∧ 0 < offset + 4) ∨ at_ < 0 ∨ buffer.length - at_ < 4 ∨ !inInt32 value then none
  else some (setSlice buffer at_ (at_ + 4) (packInt value))

namespace ArrayByteBuffer

/-- `ArrayByteBuffer(data)`. -/
def create (data : Bytes) : ArrayByteBuffer := ⟨data,0,data.length⟩

def remaining_size (b : ArrayByteBuffer) : Int := b.size - b.offset

def get_op_offset (offset : Option Int) (b : ArrayByteBuffer) : Int := offset.getD b.offset

def check_remaining (offset size : Int) : EStateM PyError ArrayByteBuffer Unit := fun b =>
  if b.size - offset - size < 0 then .error (.indexError (b.size - offset) size) b else .ok () b

def adjust_offset (offset delta : Int) : EStateM PyError ArrayByteBuffer Unit := fun b =>
  .ok () { b with offset := offset + delta }

def set_offset (offset : Int) : EStateM PyError ArrayByteBuffer Unit := fun b =>
  .ok () { b with offset := offset }

def read_int32 (offset : Option Int) : EStateM PyError ArrayByteBuffer Int := do
  let op_offset := get_op_offset offset (← get)
  check_remaining op_offset 4
  match unpackFrom (← get).buffer op_offset with
  | none => throw .structError
  | some result =>
    adjust_offset op_offset 4
    pure result

def read_bytes (size : Int) (offset : Option Int) : EStateM PyError ArrayByteBuffer Bytes := do
  let op_offset := get_op_offset offset (← get)
  check_remaining op_offset size
  let ret := slice (← get).buffer op_offset (op_offset + size)
  adjust_offset op_offset size
  pure ret

def write_int32 (value : Int) (offset : Option Int) : EStateM PyError ArrayByteBuffer Unit := do
  let op_offset := get_op_offset offset (← get)
  check_remaining op_offset 4
  match packInto (← get).buffer op_offset value with
  | none => throw .structError
  | some packed =>
    modify fun b => { b with buffer := packed }
    adjust_offset op_offset 4

def write_bytes (value : Bytes) (offset : Option Int) : EStateM PyError ArrayByteBuffer Unit := do
  let op_offset := get_op_offset offset (← get)
  check_remaining op_offset value.length
  modify fun b => { b with buffer := setSlice b.buffer op_offset (op_offset + value.length) value }
  adjust_offset op_offset value.length

def require (condition : Bool) (message : String) : EStateM PyError ArrayByteBuffer Unit :=
  if condition then pure () else throw (.valueError message)

def read_head : EStateM PyError ArrayByteBuffer Unit := do
  let magic_num ← read_bytes MAGIC_NUM.length none
  require (magic_num = MAGIC_NUM) "magic num does not match"
  let protocol_version ← read_bytes PROTOCOL_VERSION.length none
  require (protocol_version = PROTOCOL_VERSION) "protocol version not suppoted"
  let _header_size ← read_int32 none
  let body_size ← read_int32 none
  let b ← get
  require (!(0 < body_size && b.size - b.offset != body_size)) "body size does not match len of body"

/-- `PairBinReader(ArrayByteBuffer(data))`. -/
def reader (data : Bytes) : Except PyError ArrayByteBuffer :=
  match read_head (create data) with
  | .ok _ b => .ok b
  | .error e _ => .error e

def read_pair : EStateM PyError ArrayByteBuffer (Option Pair) := do
  let key_size ← read_int32 none
  if key_size = 0 then pure none
  else
    let key ← read_bytes key_size none
    let value_size ← read_int32 none
    let value ← read_bytes value_size none
    pure (some (key,value))

inductive Turn
  | yielded (pair : Pair) (b : ArrayByteBuffer)
  | returned (b : ArrayByteBuffer)
  | raised (e : PyError) (b : ArrayByteBuffer)

/-- One turn of the `while` loop of `read_all`. -/
def turn (b : ArrayByteBuffer) : Turn :=
  if 0 < b.remaining_size then
    match read_pair b with
    | .ok (some pair) c => .yielded pair c
    | .ok none c => .returned { c with offset := b.offset }
    | .error (.indexError _ _) c => .returned { c with offset := b.offset }
    | .error e c => .raised e c
  else .returned b

/-- `read_all`, with the offset it has come to. -/
def read_all : Nat → ArrayByteBuffer → List Pair × Ending × Int
  | 0, b => ([],.running,b.offset)
  | fuel + 1, b =>
    match turn b with
    | .yielded pair c => (pair :: (read_all fuel c).1,(read_all fuel c).2)
    | .returned c => ([],.returned,c.offset)
    | .raised e c => ([],.raised e,c.offset)

def write_fields (key value : Bytes) : EStateM PyError ArrayByteBuffer Unit := do
  write_int32 key.length none
  write_bytes key none
  write_int32 value.length none
  write_bytes value none

/-- `write_pair`, which is `write`: an IndexError puts the offset back. -/
def write_pair (key value : Bytes) : EStateM PyError ArrayByteBuffer Unit := fun b =>
  match write_fields key value b with
  | .error (.indexError remaining required) c => .error (.indexError remaining required) { c with offset := b.offset }
  | done => done

def write_head : EStateM PyError ArrayByteBuffer Unit := do
  write_bytes MAGIC_NUM none
  write_bytes PROTOCOL_VERSION none
  write_int32 0 none
  write_int32 0 none

private theorem read_bytes_here (n : Int) (b : ArrayByteBuffer) :
    read_bytes n none b = if b.size - b.offset - n < 0 then .error (.indexError (b.size - b.offset) n) b
      else .ok (slice b.buffer b.offset (b.offset + n)) { b with offset := b.offset + n } := by
  by_cases short : b.size - b.offset - n < 0
  · have raised : check_remaining b.offset n b = .error (.indexError (b.size - b.offset) n) b := if_pos short
    rw [if_pos short]
    exact (get_bind _ b).trans (bind_error raised)
  · have checked : check_remaining b.offset n b = .ok () b := if_neg short
    rw [if_neg short]
    exact (get_bind _ b).trans (bind_ok checked)

private theorem read_int32_here (b : ArrayByteBuffer) :
    read_int32 none b = if b.size - b.offset - 4 < 0 then .error (.indexError (b.size - b.offset) 4) b
      else match unpackFrom b.buffer b.offset with
        | none => .error .structError b
        | some value => .ok value { b with offset := b.offset + 4 } := by
  by_cases short : b.size - b.offset - 4 < 0
  · have raised : check_remaining b.offset 4 b = .error (.indexError (b.size - b.offset) 4) b := if_pos short
    rw [if_pos short]
    exact (get_bind _ b).trans (bind_error raised)
  · have checked : check_remaining b.offset 4 b = .ok () b := if_neg short
    rw [if_neg short]
    refine (get_bind _ b).trans ((bind_ok checked).trans ((get_bind _ b).trans ?_))
    cases read : unpackFrom b.buffer b.offset with
    | none =>
      simp only [get_op_offset,Option.getD_none,read]
      rfl
    | some value =>
      simp only [get_op_offset,Option.getD_none,read]
      rfl

private theorem write_bytes_here (value : Bytes) (b : ArrayByteBuffer) :
    write_bytes value none b =
      if b.size - b.offset - value.length < 0 then .error (.indexError (b.size - b.offset) value.length) b
      else .ok () { b with buffer := setSlice b.buffer b.offset (b.offset + value.length) value,
                           offset := b.offset + value.length } := by
  by_cases short : b.size - b.offset - value.length < 0
  · have raised : check_remaining b.offset value.length b =
        .error (.indexError (b.size - b.offset) value.length) b := if_pos short
    rw [if_pos short]
    exact (get_bind _ b).trans (bind_error raised)
  · have checked : check_remaining b.offset value.length b = .ok () b := if_neg short
    rw [if_neg short]
    exact (get_bind _ b).trans (bind_ok checked)

private theorem write_int32_here (value : Int) (b : ArrayByteBuffer) :
    write_int32 value none b = if b.size - b.offset - 4 < 0 then .error (.indexError (b.size - b.offset) 4) b
      else match packInto b.buffer b.offset value with
        | none => .error .structError b
        | some packed => .ok () { b with buffer := packed, offset := b.offset + 4 } := by
  by_cases short : b.size - b.offset - 4 < 0
  · have raised : check_remaining b.offset 4 b = .error (.indexError (b.size - b.offset) 4) b := if_pos short
    rw [if_pos short]
    exact (get_bind _ b).trans (bind_error raised)
  · have checked : check_remaining b.offset 4 b = .ok () b := if_neg short
    rw [if_neg short]
    refine (get_bind _ b).trans ((bind_ok checked).trans ((get_bind _ b).trans ?_))
    cases packed : packInto b.buffer b.offset value with
    | none =>
      simp only [get_op_offset,Option.getD_none,packed]
      rfl
    | some text =>
      simp only [get_op_offset,Option.getD_none,packed]
      rfl

end ArrayByteBuffer

namespace PairBinReader

def Buffered (r : PairBinReader) (b : ArrayByteBuffer) : Prop := b = ⟨r.data,r.offset,r.data.length⟩

private theorem read_bytes_buffered (n : Int) : Simulates Buffered (read_bytes n) (ArrayByteBuffer.read_bytes n none) := by
  rintro ⟨data,offset⟩ b rfl
  rw [ArrayByteBuffer.read_bytes_here]
  by_cases short : (data.length : Int) - offset - n < 0
  · have inlined : read_bytes n ⟨data,offset⟩ = .error (.indexError (data.length - offset) n) ⟨data,offset⟩ :=
      if_pos short
    rw [inlined,if_pos short]
    exact ⟨rfl,rfl⟩
  · have inlined : read_bytes n ⟨data,offset⟩ = .ok (slice data offset (offset + n)) ⟨data,offset + n⟩ :=
      if_neg short
    rw [inlined,if_neg short]
    exact ⟨rfl,rfl⟩

private theorem read_int32_buffered : Simulates Buffered read_int32 (ArrayByteBuffer.read_int32 none) := by
  rintro ⟨data,offset⟩ b rfl
  rw [ArrayByteBuffer.read_int32_here]
  by_cases short : (data.length : Int) - offset - 4 < 0
  · have inlined : read_int32 ⟨data,offset⟩ = .error (.indexError (data.length - offset) 4) ⟨data,offset⟩ :=
      if_pos short
    rw [inlined,if_pos short]
    exact ⟨rfl,rfl⟩
  · have inlined : read_int32 ⟨data,offset⟩ = match unpackFrom data offset with
        | none => .error .structError ⟨data,offset⟩
        | some value => .ok value ⟨data,offset + 4⟩ := if_neg short
    rw [inlined,if_neg short]
    cases unpackFrom data offset with
    | none => exact ⟨rfl,rfl⟩
    | some value => exact ⟨rfl,rfl⟩

private theorem require_buffered (condition : Bool) (message : String) :
    Simulates Buffered (require condition message) (ArrayByteBuffer.require condition message) := by
  intro r b same
  cases condition with
  | false => exact ⟨rfl,same⟩
  | true => exact ⟨rfl,same⟩

theorem read_head_buffered : Simulates Buffered read_head ArrayByteBuffer.read_head := by
  apply (read_bytes_buffered _).bind
  intro magic_num
  apply (require_buffered _ _).bind
  intro _
  apply (read_bytes_buffered _).bind
  intro protocol_version
  apply (require_buffered _ _).bind
  intro _
  apply read_int32_buffered.bind
  intro header_size
  apply read_int32_buffered.bind
  rintro body_size r b rfl
  exact require_buffered _ _ r _ rfl

private theorem read_pair_buffered : Simulates Buffered read_pair ArrayByteBuffer.read_pair := by
  apply read_int32_buffered.bind
  intro key_size
  by_cases stop : key_size = 0
  · rw [if_pos stop,if_pos stop]
    exact Simulates.pure none
  · rw [if_neg stop,if_neg stop]
    apply (read_bytes_buffered key_size).bind
    intro key
    apply read_int32_buffered.bind
    intro value_size
    apply (read_bytes_buffered value_size).bind
    intro value
    exact Simulates.pure (some (key,value))

/-- The offset `read_all` has come to. -/
def drained : Nat → PairBinReader → Int
  | 0, r => r.offset
  | fuel + 1, r =>
    match turn r with
    | .yielded _ t => drained fuel t
    | .returned t => t.offset
    | .raised _ t => t.offset

private theorem turn_buffered {r : PairBinReader} {b : ArrayByteBuffer} (same : Buffered r b) :
    match turn r, ArrayByteBuffer.turn b with
    | .yielded pair t, .yielded pair' c => pair = pair' ∧ Buffered t c
    | .returned t, .returned c => Buffered t c
    | .raised e t, .raised e' c => e = e' ∧ Buffered t c
    | _, _ => False := by
  have both := read_pair_buffered r b same
  cases same
  unfold turn ArrayByteBuffer.turn
  by_cases more : 0 < r.size - r.offset
  case neg =>
    have stays : ¬ 0 < ArrayByteBuffer.remaining_size ⟨r.data,r.offset,r.data.length⟩ := more
    rw [if_neg more,if_neg stays]
    rfl
  have goes : 0 < ArrayByteBuffer.remaining_size ⟨r.data,r.offset,r.data.length⟩ := more
  rw [if_pos more,if_pos goes]
  obtain ⟨a,t,c,left,right,rfl⟩ | ⟨e,t,c,left,right,rfl⟩ := both.split
  · rw [left,right]
    cases a with
    | none => rfl
    | some pair => exact ⟨rfl,rfl⟩
  · rw [left,right]
    cases e with
    | indexError remaining required => rfl
    | valueError message => exact ⟨rfl,rfl⟩
    | typeError => exact ⟨rfl,rfl⟩
    | structError => exact ⟨rfl,rfl⟩
    | overflowError => exact ⟨rfl,rfl⟩

theorem read_all_buffered (fuel : Nat) {r : PairBinReader} {b : ArrayByteBuffer} (same : Buffered r b) :
    ArrayByteBuffer.read_all fuel b = ((read_all fuel r).1,(read_all fuel r).2,drained fuel r) := by
  induction fuel generalizing r b with
  | zero =>
    cases same
    rfl
  | succ fuel ih =>
    have both := turn_buffered same
    unfold read_all ArrayByteBuffer.read_all drained
    cases left : turn r with
    | yielded pair t =>
      cases right : ArrayByteBuffer.turn b with
      | yielded pair' c =>
        rw [left,right] at both
        obtain ⟨rfl,after⟩ := both
        simp only [ih after]
      | returned c | raised e c =>
        rw [left,right] at both
        exact both.elim
    | returned t =>
      cases right : ArrayByteBuffer.turn b with
      | returned c =>
        rw [left,right] at both
        cases both
        rfl
      | yielded pair c | raised e c =>
        rw [left,right] at both
        exact both.elim
    | raised e t =>
      cases right : ArrayByteBuffer.turn b with
      | raised e' c =>
        rw [left,right] at both
        obtain ⟨rfl,rfl⟩ := both
        rfl
      | yielded pair c | returned c =>
        rw [left,right] at both
        exact both.elim

end PairBinReader

namespace PairBinWriter
variable {size : Nat}

def Buffered (w : PairBinWriter size) (b : ArrayByteBuffer) : Prop := b = ⟨w.data,w.offset,size⟩

private theorem write_bytes_buffered (value : Bytes) :
    Simulates Buffered (write_bytes value : EStateM PyError (PairBinWriter size) Unit)
      (ArrayByteBuffer.write_bytes value none) := by
  rintro w b rfl
  rw [ArrayByteBuffer.write_bytes_here]
  by_cases fits : w.offset + value.length ≤ size
  · have room : ¬ (size : Int) - w.offset - value.length < 0 := by omega
    rw [write_bytes,dif_pos fits,if_neg room]
    exact ⟨rfl,rfl⟩
  · have short : (size : Int) - w.offset - value.length < 0 := by omega
    rw [write_bytes,dif_neg fits,if_pos short]
    exact ⟨rfl,rfl⟩

private theorem packInto_inside (buffer : Bytes) {n : Nat} (inside : n + 4 ≤ buffer.length) (value : Int) :
    packInto buffer n value = if inInt32 value then some (setSlice buffer n (n + 4 : Nat) (packInt value)) else none := by
  have forward : ¬ (n : Int) < 0 := by omega
  have range : (((n : Int) < 0 ∧ 0 < (n : Int) + 4) ∨ (n : Int) < 0 ∨ (buffer.length : Int) - n < 4 ∨
      (!inInt32 value) = true) ↔ inInt32 value = false := by
    cases inInt32 value with
    | false => simp
    | true =>
      simp only [Bool.not_true,Bool.false_eq_true,Bool.true_eq_false,or_false,iff_false]
      omega
  simp only [packInto,if_neg forward,range]
  cases inInt32 value with
  | false => rfl
  | true => rfl

private theorem write_int32_buffered (value : Int) :
    Simulates Buffered (write_int32 value : EStateM PyError (PairBinWriter size) Unit)
      (ArrayByteBuffer.write_int32 value none) := by
  rintro w b rfl
  rw [ArrayByteBuffer.write_int32_here]
  by_cases fits : w.offset + 4 ≤ size
  · have room : ¬ (size : Int) - w.offset - 4 < 0 := by omega
    rw [write_int32,if_pos fits,if_neg room,packInto_inside w.data (w.sized.symm ▸ fits)]
    cases inInt32 value with
    | false => exact ⟨rfl,rfl⟩
    | true =>
      have taken : write_bytes (packInt value) w = _ := dif_pos fits
      rw [if_pos rfl,if_pos rfl,taken]
      exact ⟨rfl,rfl⟩
  · have short : (size : Int) - w.offset - 4 < 0 := by omega
    rw [write_int32,if_neg fits,if_pos short]
    exact ⟨rfl,rfl⟩

private theorem write_pair_buffered (key value : Bytes) :
    Simulates Buffered (write_pair key value : EStateM PyError (PairBinWriter size) Unit)
      (ArrayByteBuffer.write_fields key value) := by
  apply (write_int32_buffered _).bind
  intro _
  apply (write_bytes_buffered key).bind
  intro _
  apply (write_int32_buffered _).bind
  intro _
  exact write_bytes_buffered value

theorem write_buffered (key value : Bytes) :
    Simulates Buffered (write key value : EStateM PyError (PairBinWriter size) Unit)
      (ArrayByteBuffer.write_pair key value) := by
  intro w b same
  have both := write_pair_buffered key value w b same
  cases same
  unfold write ArrayByteBuffer.write_pair
  obtain ⟨a,t,c,left,right,rfl⟩ | ⟨e,t,c,left,right,rfl⟩ := both.split
  · rw [left,right]
    exact ⟨rfl,rfl⟩
  · rw [left,right]
    cases e with
    | indexError remaining required => exact ⟨rfl,rfl⟩
    | valueError message => exact ⟨rfl,rfl⟩
    | typeError => exact ⟨rfl,rfl⟩
    | structError => exact ⟨rfl,rfl⟩
    | overflowError => exact ⟨rfl,rfl⟩

theorem write_head_buffered :
    Simulates Buffered (write_head : EStateM PyError (PairBinWriter size) Unit) ArrayByteBuffer.write_head := by
  apply (write_bytes_buffered _).bind
  intro _
  apply (write_bytes_buffered _).bind
  intro _
  apply (write_int32_buffered 0).bind
  intro _
  exact write_int32_buffered 0

end PairBinWriter

/-- Both constructions raise the same error, or both readers yield the same pairs, end in
the same way and have come to the same offset. -/
def ReadersAgree (data : Bytes) : Prop :=
  match PairBinReader.create data, ArrayByteBuffer.reader data with
  | .ok r, .ok b => ∀ fuel, ArrayByteBuffer.read_all fuel b =
      ((PairBinReader.read_all fuel r).1,(PairBinReader.read_all fuel r).2,PairBinReader.drained fuel r)
  | .error e, .error e' => e = e'
  | _, _ => False

def PairBinWriter.untouched (data : Bytes) : PairBinWriter data.length := ⟨data,0,rfl,Nat.zero_le _⟩

/-- Both constructions raise the same error, or both writers answer the same to every
sequence of writes, whatever errors these raise, and leave the same offset and the same
bytes up to it. -/
def WritersAgree (data : Bytes) : Prop :=
  match PairBinWriter.write_head (.untouched data), ArrayByteBuffer.write_head (.create data) with
  | .ok _ w, .ok _ b => ∀ pairs : List Pair,
      let inlined := calls (fun pair : Pair => PairBinWriter.write pair.1 pair.2) pairs w
      let through := calls (fun pair : Pair => ArrayByteBuffer.write_pair pair.1 pair.2) pairs b
      inlined.1 = through.1 ∧ through.2.offset = inlined.2.offset ∧
        through.2.buffer.take inlined.2.offset = inlined.2.content
  | .error e _, .error e' _ => e = e'
  | _, _ => False

/-- The reader and the writer that index the bytes do what those on a buffer do. -/
theorem codecs_agree (data : Bytes) : ReadersAgree data ∧ WritersAgree data := by
  constructor
  · have both := PairBinReader.read_head_buffered ⟨data,0⟩ (.create data) rfl
    unfold ReadersAgree PairBinReader.create ArrayByteBuffer.reader
    obtain ⟨a,r,b,left,right,same⟩ | ⟨e,r,b,left,right,same⟩ := both.split
    · rw [left,right]
      exact fun fuel => PairBinReader.read_all_buffered fuel same
    · rw [left,right]
  · have both := PairBinWriter.write_head_buffered (.untouched data) (.create data) rfl
    unfold WritersAgree
    obtain ⟨a,w,b,left,right,same⟩ | ⟨e,w,b,left,right,same⟩ := both.split
    · rw [left,right]
      intro pairs
      have each (pair : Pair) : Simulates PairBinWriter.Buffered
          (PairBinWriter.write pair.1 pair.2 : EStateM PyError (PairBinWriter data.length) Unit)
          (ArrayByteBuffer.write_pair pair.1 pair.2) := PairBinWriter.write_buffered pair.1 pair.2
      obtain ⟨answers,ends⟩ := Simulates.calls each pairs same
      exact ⟨answers,by rw [ends],by rw [ends]; rfl⟩
    · rw [left,right]

end Eggroll.Format
