import Eggroll.Library.PyBytes

/-! The pair format of `_format.py`: `PairBinWriter` and `PairBinReader` over a
bytearray they index themselves (the `data` argument is given). A writer cannot
point outside its buffer; a reader can, because the sizes it reads may be negative. -/
namespace Eggroll.Format
open Library Library.PyBytes

abbrev Pair := Bytes × Bytes

inductive PyError
  | indexError (remaining required : Int)
  | valueError (message : String)
  | typeError
  | structError
  | overflowError
deriving Repr, DecidableEq

/-- How the consumption of a generator ended; `running` when the fuel ran out first. -/
inductive Ending
  | returned
  | raised (e : PyError)
  | running
deriving Repr, DecidableEq

def MAGIC_NUM : Bytes := [0x46,0x70,0x93,0x94]
def PROTOCOL_VERSION : Bytes := [0x00,0x00,0x00,0x01]

def frame (pair : Pair) : Bytes :=
  packInt pair.1.length ++ pair.1 ++ packInt pair.2.length ++ pair.2

def frames (pairs : List Pair) : Bytes := pairs.flatMap frame

/-- The bytes `write_head` leaves: magic number, version and two unused sizes. -/
def header : Bytes := MAGIC_NUM ++ PROTOCOL_VERSION ++ packInt 0 ++ packInt 0

/-- A pair that the format can carry: a length is a signed 32-bit field, and a key of
length zero marks the end of a batch. -/
structure Encodable (pair : Pair) : Prop where
  nonempty : pair.1 ≠ []
  keySmall : pair.1.length < 2147483648
  valueSmall : pair.2.length < 2147483648

instance : DecidablePred Encodable := fun pair =>
  decidable_of_iff (pair.1 ≠ [] ∧ pair.1.length < 2147483648 ∧ pair.2.length < 2147483648)
    ⟨fun parts => ⟨parts.1,parts.2.1,parts.2.2⟩,fun all => ⟨all.nonempty,all.keySmall,all.valueSmall⟩⟩

@[simp] theorem frame_length (pair : Pair) :
    (frame pair).length = pair.1.length + pair.2.length + 8 := by
  simp [frame]; omega

@[simp] theorem header_length : header.length = 16 := rfl

@[simp] theorem frames_nil : frames [] = [] := rfl

@[simp] theorem frames_append (first second : List Pair) :
    frames (first ++ second) = frames first ++ frames second := by
  simp [frames]

@[simp] theorem frames_singleton (pair : Pair) : frames [pair] = frame pair := by
  simp [frames]

theorem frames_cons (pair : Pair) (rest : List Pair) :
    frames (pair :: rest) = frame pair ++ frames rest := by
  simp [frames]

/-- A writer on a bytearray of `size` bytes. -/
structure PairBinWriter (size : Nat) where
  data : Bytes
  offset : Nat
  sized : data.length = size
  inside : offset ≤ size

namespace PairBinWriter
variable {size : Nat}

/-- What has been written and not rolled back: `data[0:get_offset()]`. -/
def content (w : PairBinWriter size) : Bytes := w.data.take w.offset

def write_bytes (value : Bytes) : EStateM PyError (PairBinWriter size) Unit := fun w =>
  if fits : w.offset + value.length ≤ size then
    .ok () ⟨setSlice w.data w.offset (w.offset + value.length : Nat) value,w.offset + value.length,
      (setSlice_length w.data value (Nat.le_add_right _ _) (w.sized.symm ▸ fits) (by omega)).trans w.sized,
      fits⟩
  else .error (.indexError (size - w.offset) value.length) w

/-- `pack_into(">i", …)` at the offset; a value outside 32 bits is `struct.error`. -/
def write_int32 (value : Int) : EStateM PyError (PairBinWriter size) Unit := fun w =>
  if w.offset + 4 ≤ size then
    if inInt32 value then write_bytes (packInt value) w else .error .structError w
  else .error (.indexError (size - w.offset) 4) w

def write_pair (key value : Bytes) : EStateM PyError (PairBinWriter size) Unit := do
  write_int32 key.length
  write_bytes key
  write_int32 value.length
  write_bytes value

/-- `write`: an IndexError puts the offset back; the bytes written so far stay. -/
def write (key value : Bytes) : EStateM PyError (PairBinWriter size) Unit := fun w =>
  match write_pair key value w with
  | .error (.indexError remaining required) t =>
    .error (.indexError remaining required) { t with offset := w.offset, inside := w.inside }
  | done => done

def write_head : EStateM PyError (PairBinWriter size) Unit := do
  write_bytes MAGIC_NUM
  write_bytes PROTOCOL_VERSION
  write_int32 0
  write_int32 0

/-- `PairBinWriter(data=bytearray(size))`. -/
def create (size : Nat) : Except PyError (PairBinWriter size) :=
  match write_head ⟨List.replicate size 0,0,by simp,Nat.zero_le _⟩ with
  | .ok _ w => .ok w
  | .error e _ => .error e

theorem content_length (w : PairBinWriter size) : w.content.length = w.offset := by
  rw [content,List.length_take,w.sized,Nat.min_eq_left w.inside]

theorem write_bytes_ok (w : PairBinWriter size) (value : Bytes)
    (fits : w.offset + value.length ≤ size) :
    ∃ t, write_bytes value w = .ok () t ∧ t.offset = w.offset + value.length ∧
      t.content = w.content ++ value := by
  refine ⟨_,dif_pos fits,rfl,?_⟩
  exact setSlice_take w.data value (Nat.le_add_right _ _) (w.sized.symm ▸ fits)
    (Nat.add_sub_cancel_left _ _).symm

theorem write_int32_ok (w : PairBinWriter size) (n : Nat) (small : n < 2147483648)
    (fits : w.offset + 4 ≤ size) :
    ∃ t, write_int32 n w = .ok () t ∧ t.offset = w.offset + 4 ∧
      t.content = w.content ++ packInt n := by
  have range := inInt32_natCast small
  obtain ⟨t,done,moved,text⟩ := write_bytes_ok w (packInt n) fits
  exact ⟨t,by rw [write_int32,if_pos fits,if_pos range,done],moved,text⟩

/-- The bytes below `limit` and the writer's claim to them: no write disturbs them. -/
def Below (limit : Nat) (text : Bytes) (w : PairBinWriter size) : Prop :=
  limit ≤ w.offset ∧ w.data.take limit = text

private theorem write_bytes_below (limit : Nat) (text value : Bytes) :
    Keeps (Below limit text) (write_bytes value : EStateM PyError (PairBinWriter size) Unit) := by
  rintro w ⟨above,same⟩
  by_cases fits : w.offset + value.length ≤ size
  · rw [write_bytes,dif_pos fits]
    refine ⟨above.trans (Nat.le_add_right _ _),?_⟩
    exact (setSlice_take_before w.data value (Nat.le_add_right _ _) (w.sized.symm ▸ fits) above).trans same
  · rw [write_bytes,dif_neg fits]
    exact ⟨above,same⟩

private theorem write_int32_below (limit : Nat) (text : Bytes) (value : Int) :
    Keeps (Below limit text) (write_int32 value : EStateM PyError (PairBinWriter size) Unit) := by
  intro w below
  unfold write_int32
  split
  · split
    · exact write_bytes_below limit text (packInt value) w below
    · exact below
  · exact below

private theorem write_pair_below (limit : Nat) (text key value : Bytes) :
    Keeps (Below limit text) (write_pair key value : EStateM PyError (PairBinWriter size) Unit) :=
  (write_int32_below limit text _).bind fun _ =>
    (write_bytes_below limit text _).bind fun _ =>
      (write_int32_below limit text _).bind fun _ => write_bytes_below limit text _

def IsIndexError : PyError → Prop
  | .indexError _ _ => True
  | _ => False

private theorem write_bytes_raises (value : Bytes) :
    RaisesOnly IsIndexError (write_bytes value : EStateM PyError (PairBinWriter size) Unit) := by
  intro w e t raised
  unfold write_bytes at raised
  split at raised
  · contradiction
  · cases raised
    trivial

private theorem write_int32_raises (n : Nat) (small : n < 2147483648) :
    RaisesOnly IsIndexError (write_int32 n : EStateM PyError (PairBinWriter size) Unit) := by
  have range := inInt32_natCast small
  intro w e t raised
  unfold write_int32 at raised
  rw [if_pos range] at raised
  split at raised
  · exact write_bytes_raises _ w e t raised
  · cases raised
    trivial

private theorem write_bytes_moves {w t : PairBinWriter size} {value : Bytes}
    (done : write_bytes value w = .ok () t) : t.offset = w.offset + value.length := by
  unfold write_bytes at done
  split at done
  · cases done
    rfl
  · contradiction

private theorem write_int32_moves {w t : PairBinWriter size} {value : Int}
    (done : write_int32 value w = .ok () t) : t.offset = w.offset + 4 := by
  unfold write_int32 at done
  split at done
  · split at done
    · exact write_bytes_moves done
    · contradiction
  · contradiction

theorem write_bytes_adds {w t : PairBinWriter size} {value : Bytes}
    (done : write_bytes value w = .ok () t) : t.content = w.content ++ value := by
  have moved := write_bytes_moves done
  have inside := t.inside
  obtain ⟨t',written,_,text⟩ := write_bytes_ok w value (by omega)
  cases written.symm.trans done
  exact text

theorem write_int32_adds {w t : PairBinWriter size} {value : Int}
    (done : write_int32 value w = .ok () t) : t.content = w.content ++ packInt value := by
  unfold write_int32 at done
  split at done
  · split at done
    · exact write_bytes_adds done
    · contradiction
  · contradiction

private theorem write_pair_moves {w t : PairBinWriter size} {key value : Bytes}
    (done : write_pair key value w = .ok () t) :
    t.offset = w.offset + key.length + value.length + 8 := by
  obtain ⟨_,a,first,rest⟩ := bind_eq_ok done
  obtain ⟨_,b,second,rest⟩ := bind_eq_ok rest
  obtain ⟨_,c,third,last⟩ := bind_eq_ok rest
  rw [write_bytes_moves last,write_int32_moves third,write_bytes_moves second,
    write_int32_moves first]
  omega

theorem write_fits (w : PairBinWriter size) (pair : Pair) (encodable : Encodable pair)
    (fits : w.offset + (frame pair).length ≤ size) :
    ∃ t, write pair.1 pair.2 w = .ok () t ∧ t.offset = w.offset + (frame pair).length ∧
      t.content = w.content ++ frame pair := by
  rw [frame_length] at fits
  obtain ⟨a,doneA,movedA,textA⟩ := write_int32_ok w pair.1.length encodable.keySmall (by omega)
  obtain ⟨b,doneB,movedB,textB⟩ := write_bytes_ok a pair.1 (by omega)
  obtain ⟨c,doneC,movedC,textC⟩ := write_int32_ok b pair.2.length encodable.valueSmall (by omega)
  obtain ⟨d,doneD,movedD,textD⟩ := write_bytes_ok c pair.2 (by omega)
  have whole : write_pair pair.1 pair.2 w = .ok () d := by
    rw [write_pair,bind_ok doneA,bind_ok doneB,bind_ok doneC,doneD]
  refine ⟨d,by rw [write,whole],by rw [frame_length]; omega,?_⟩
  rw [textD,textC,textB,textA,frame]
  simp only [List.append_assoc]

private theorem write_eq_ok {w t : PairBinWriter size} {key value : Bytes}
    (done : write key value w = .ok () t) : write_pair key value w = .ok () t := by
  unfold write at done
  split at done
  · contradiction
  · exact done

private theorem write_int32_small {w t : PairBinWriter size} {n : Nat}
    (done : write_int32 n w = .ok () t) : n < 2147483648 := by
  unfold write_int32 at done
  split at done
  · split at done
    · rename_i range
      exact lt_of_inInt32 range
    · cases done
  · contradiction

theorem write_done {w t : PairBinWriter size} {pair : Pair} (nonempty : pair.1 ≠ [])
    (done : write pair.1 pair.2 w = .ok () t) :
    Encodable pair ∧ t.content = w.content ++ frame pair := by
  obtain ⟨_,a,first,rest⟩ := bind_eq_ok (write_eq_ok done)
  obtain ⟨_,b,second,rest⟩ := bind_eq_ok rest
  obtain ⟨_,c,third,last⟩ := bind_eq_ok rest
  refine ⟨⟨nonempty,write_int32_small first,write_int32_small third⟩,?_⟩
  rw [write_bytes_adds last,write_int32_adds third,write_bytes_adds second,write_int32_adds first,frame]
  simp only [List.append_assoc]

theorem write_rollback {w t : PairBinWriter size} {key value : Bytes} {remaining required : Int}
    (raised : write key value w = .error (.indexError remaining required) t) :
    t.offset = w.offset ∧ t.content = w.content := by
  have below := write_pair_below w.offset w.content key value w ⟨Nat.le_refl _,rfl⟩
  unfold write at raised
  split at raised
  · rename_i t' run
    rw [run,after_error] at below
    cases raised
    exact ⟨rfl,below.2⟩
  · rename_i other
    exact absurd raised (other _ _ _)

theorem write_overflow (w : PairBinWriter size) (pair : Pair) (encodable : Encodable pair)
    (full : size < w.offset + (frame pair).length) :
    ∃ t remaining required, write pair.1 pair.2 w = .error (.indexError remaining required) t ∧
      t.offset = w.offset ∧ t.content = w.content := by
  rw [frame_length] at full
  have raises : RaisesOnly IsIndexError
      (write_pair pair.1 pair.2 : EStateM PyError (PairBinWriter size) Unit) :=
    (write_int32_raises _ encodable.keySmall).bind fun _ =>
      (write_bytes_raises _).bind fun _ =>
        (write_int32_raises _ encodable.valueSmall).bind fun _ => write_bytes_raises _
  cases run : write_pair pair.1 pair.2 w with
  | error e t =>
    match e, raises w e t run with
    | .indexError remaining required, _ =>
      have raised : write pair.1 pair.2 w = .error (.indexError remaining required)
          { t with offset := w.offset, inside := w.inside } := by simp only [write,run]
      exact ⟨_,remaining,required,raised,write_rollback raised⟩
  | ok _ t =>
    have moved := write_pair_moves run
    have inside := t.inside
    omega

/-! A pair that has no frame because a length is not a signed 32-bit number. -/

/-- The bytes that must fit before `struct.error` is raised. -/
def reach (pair : Pair) : Nat := if pair.1.length < 2147483648 then pair.1.length + 8 else 4

private theorem write_int32_full (w : PairBinWriter size) (value : Int) (full : size < w.offset + 4) :
    write_int32 value w = .error (.indexError (size - w.offset) 4) w := if_neg (by omega)

private theorem write_int32_large (w : PairBinWriter size) {n : Nat} (large : 2147483648 ≤ n)
    (fits : w.offset + 4 ≤ size) : write_int32 n w = .error .structError w := by
  rw [write_int32,if_pos fits,inInt32_large large]
  rfl

private theorem write_bytes_full (w : PairBinWriter size) (value : Bytes) (full : size < w.offset + value.length) :
    write_bytes value w = .error (.indexError (size - w.offset) value.length) w := dif_neg (by omega)

theorem write_struct_error (w : PairBinWriter size) (pair : Pair) (nonempty : pair.1 ≠ [])
    (unencodable : ¬ Encodable pair) (fits : w.offset + reach pair ≤ size) :
    ∃ t, write pair.1 pair.2 w = .error .structError t := by
  have raised : ∃ t, write_pair pair.1 pair.2 w = .error .structError t := by
    unfold reach at fits
    by_cases small : pair.1.length < 2147483648
    · rw [if_pos small] at fits
      have large : 2147483648 ≤ pair.2.length := by
        by_contra valueSmall
        exact unencodable ⟨nonempty,small,Nat.lt_of_not_le valueSmall⟩
      obtain ⟨a,doneA,movedA,-⟩ := write_int32_ok w pair.1.length small (by omega)
      obtain ⟨b,doneB,movedB,-⟩ := write_bytes_ok a pair.1 (by omega)
      refine ⟨b,?_⟩
      rw [write_pair,bind_ok doneA,bind_ok doneB,bind_error (write_int32_large b large (by omega))]
    · rw [if_neg small] at fits
      refine ⟨w,?_⟩
      rw [write_pair,bind_error (write_int32_large w (Nat.le_of_not_lt small) fits)]
  obtain ⟨t,raised⟩ := raised
  exact ⟨t,by rw [write,raised]⟩

theorem write_no_room (w : PairBinWriter size) (pair : Pair) (full : size < w.offset + reach pair) :
    ∃ t remaining required, write pair.1 pair.2 w = .error (.indexError remaining required) t ∧
      t.content = w.content := by
  have raised : ∃ t remaining required, write_pair pair.1 pair.2 w = .error (.indexError remaining required) t := by
    unfold reach at full
    by_cases first : size < w.offset + 4
    · exact ⟨w,_,_,by rw [write_pair,bind_error (write_int32_full w _ first)]⟩
    by_cases small : pair.1.length < 2147483648
    · rw [if_pos small] at full
      obtain ⟨a,doneA,movedA,-⟩ := write_int32_ok w pair.1.length small (by omega)
      by_cases second : size < a.offset + pair.1.length
      · exact ⟨a,_,_,by rw [write_pair,bind_ok doneA,bind_error (write_bytes_full a _ second)]⟩
      obtain ⟨b,doneB,movedB,-⟩ := write_bytes_ok a pair.1 (by omega)
      have third : size < b.offset + 4 := by omega
      exact ⟨b,_,_,by rw [write_pair,bind_ok doneA,bind_ok doneB,bind_error (write_int32_full b _ third)]⟩
    · rw [if_neg small] at full
      exact absurd full first
  obtain ⟨t,remaining,required,raised⟩ := raised
  have restored : write pair.1 pair.2 w = .error (.indexError remaining required)
      { t with offset := w.offset, inside := w.inside } := by simp only [write,raised]
  exact ⟨_,remaining,required,restored,(write_rollback restored).2⟩

theorem create_ok (size : Nat) (room : 16 ≤ size) :
    ∃ w : PairBinWriter size, create size = .ok w ∧ w.offset = 16 ∧ w.content = header := by
  let blank : PairBinWriter size := ⟨List.replicate size 0,0,by simp,Nat.zero_le _⟩
  have empty : blank.content = [] := rfl
  have start : blank.offset = 0 := rfl
  have magic : MAGIC_NUM.length = 4 := rfl
  have version : PROTOCOL_VERSION.length = 4 := rfl
  obtain ⟨a,doneA,movedA,textA⟩ := write_bytes_ok blank MAGIC_NUM (by omega)
  obtain ⟨b,doneB,movedB,textB⟩ := write_bytes_ok a PROTOCOL_VERSION (by omega)
  obtain ⟨c,doneC,movedC,textC⟩ := write_int32_ok b 0 (by decide) (by omega)
  obtain ⟨d,doneD,movedD,textD⟩ := write_int32_ok c 0 (by decide) (by omega)
  have whole : write_head blank = .ok () d := by
    unfold write_head
    rw [bind_ok doneA,bind_ok doneB]
    exact (bind_ok doneC).trans doneD
  refine ⟨d,by rw [create,whole],by omega,?_⟩
  rw [textD,textC,textB,textA,empty]
  rfl

theorem write_head_content {w t : PairBinWriter size} (blank : w.content = [])
    (done : write_head w = .ok () t) : t.content = header := by
  obtain ⟨_,a,first,rest⟩ := bind_eq_ok done
  obtain ⟨_,b,second,rest⟩ := bind_eq_ok rest
  obtain ⟨_,c,third,last⟩ := bind_eq_ok rest
  rw [write_int32_adds last,write_int32_adds third,write_bytes_adds second,write_bytes_adds first,blank]
  rfl

theorem create_content {w : PairBinWriter size} (created : create size = .ok w) :
    w.content = header := by
  unfold create at created
  split at created
  · rename_i done
    cases created
    exact write_head_content rfl done
  · contradiction

end PairBinWriter

/-- A reader over `data`. The sizes it reads are signed and only their sum with the
offset is compared with the length, so the offset can move backwards. -/
structure PairBinReader where
  data : Bytes
  offset : Int
deriving Repr, DecidableEq

namespace PairBinReader

def size (r : PairBinReader) : Int := r.data.length

def read_bytes (size : Int) : EStateM PyError PairBinReader Bytes := fun r =>
  if r.size - r.offset - size < 0 then .error (.indexError (r.size - r.offset) size) r
  else .ok (slice r.data r.offset (r.offset + size)) { r with offset := r.offset + size }

def read_int32 : EStateM PyError PairBinReader Int := fun r =>
  if r.size - r.offset - 4 < 0 then .error (.indexError (r.size - r.offset) 4) r
  else
    match unpackFrom r.data r.offset with
    | none => .error .structError r
    | some value => .ok value { r with offset := r.offset + 4 }

def require (condition : Bool) (message : String) : EStateM PyError PairBinReader Unit :=
  if condition then pure () else throw (.valueError message)

def read_head : EStateM PyError PairBinReader Unit := do
  let magic_num ← read_bytes MAGIC_NUM.length
  require (magic_num = MAGIC_NUM) "magic num does not match"
  let protocol_version ← read_bytes PROTOCOL_VERSION.length
  require (protocol_version = PROTOCOL_VERSION) "protocol version not suppoted"
  let _header_size ← read_int32
  let body_size ← read_int32
  let r ← get
  require (!(0 < body_size && r.size - r.offset != body_size)) "body size does not match len of body"

/-- `PairBinReader(data=data)`. -/
def create (data : Bytes) : Except PyError PairBinReader :=
  match read_head ⟨data,0⟩ with
  | .ok _ r => .ok r
  | .error e _ => .error e

/-- The body of the `try` in `read_all`; `none` is the end mark, a key size of zero. -/
def read_pair : EStateM PyError PairBinReader (Option Pair) := do
  let key_size ← read_int32
  if key_size = 0 then pure none
  else
    let key ← read_bytes key_size
    let value_size ← read_int32
    let value ← read_bytes value_size
    pure (some (key,value))

inductive Turn
  | yielded (pair : Pair) (r : PairBinReader)
  | returned (r : PairBinReader)
  | raised (e : PyError) (r : PairBinReader)
deriving Repr, DecidableEq

/-- One turn of the `while` loop of `read_all`. -/
def turn (r : PairBinReader) : Turn :=
  if 0 < r.size - r.offset then
    match read_pair r with
    | .ok (some pair) t => .yielded pair t
    | .ok none t => .returned { t with offset := r.offset }
    | .error (.indexError _ _) t => .returned { t with offset := r.offset }
    | .error e t => .raised e t
  else .returned r

def read_all : Nat → PairBinReader → List Pair × Ending
  | 0, _ => ([],.running)
  | fuel + 1, r =>
    match turn r with
    | .yielded pair t => (pair :: (read_all fuel t).1,(read_all fuel t).2)
    | .returned _ => ([],.returned)
    | .raised e _ => ([],.raised e)

def Ahead (r : PairBinReader) (text : Bytes) : Prop :=
  ∃ n : Nat, r.offset = n ∧ n ≤ r.data.length ∧ r.data.drop n = text

theorem Ahead.remaining {r : PairBinReader} {text : Bytes} (ahead : Ahead r text) :
    r.size - r.offset = text.length := by
  obtain ⟨n,offset,inside,shape⟩ := ahead
  rw [offset,size,← shape,List.length_drop]
  omega

theorem Ahead.advance {r : PairBinReader} {first rest : Bytes} (ahead : Ahead r (first ++ rest)) :
    Ahead { r with offset := r.offset + first.length } rest := by
  have remaining := ahead.remaining
  obtain ⟨n,offset,inside,shape⟩ := ahead
  rw [size,offset,List.length_append] at remaining
  refine ⟨n + first.length,by simp [offset],by simp only; omega,?_⟩
  rw [← List.drop_drop,shape,List.drop_left]

private theorem read_bytes_ahead {r : PairBinReader} {value rest : Bytes}
    (ahead : Ahead r (value ++ rest)) :
    ∃ t, read_bytes value.length r = .ok value t ∧ Ahead t rest := by
  have remaining := ahead.remaining
  rw [List.length_append] at remaining
  refine ⟨_,?_,ahead.advance⟩
  obtain ⟨n,offset,inside,shape⟩ := ahead
  have fits : ¬ r.size - r.offset - value.length < 0 := by omega
  have bounded : n + value.length ≤ r.data.length := by
    have sizes := congrArg List.length shape
    simp only [List.length_drop,List.length_append] at sizes
    omega
  have text : slice r.data n (n + value.length : Nat) = value := by
    rw [slice_of_le r.data (Nat.le_add_right _ _) bounded,shape,Nat.add_sub_cancel_left,List.take_left]
  rw [read_bytes,if_neg fits,offset]
  congr 1

theorem read_int32_ahead {r : PairBinReader} {rest : Bytes} {n : Nat} (small : n < 2147483648)
    (ahead : Ahead r (packInt n ++ rest)) :
    ∃ t, read_int32 r = .ok (n : Int) t ∧ Ahead t rest := by
  have remaining := ahead.remaining
  rw [List.length_append,packInt_length] at remaining
  refine ⟨_,?_,ahead.advance⟩
  obtain ⟨m,offset,inside,shape⟩ := ahead
  have fits : ¬ r.size - r.offset - 4 < 0 := by omega
  rw [read_int32,if_neg fits,offset,unpackFrom_of_drop r.data rest shape small]
  rfl

private theorem require_ok {condition : Bool} {message : String} {r : PairBinReader}
    (holds : condition = true) : require condition message r = .ok () r := by
  rw [require,if_pos holds]
  rfl

theorem create_header (body : Bytes) : ∃ r, create (header ++ body) = .ok r ∧ Ahead r body := by
  have start : Ahead ⟨header ++ body,0⟩
      (MAGIC_NUM ++ (PROTOCOL_VERSION ++ (packInt (0 : Nat) ++ (packInt (0 : Nat) ++ body)))) :=
    ⟨0,rfl,Nat.zero_le _,by simp [header]⟩
  obtain ⟨a,doneA,aheadA⟩ := read_bytes_ahead start
  obtain ⟨b,doneB,aheadB⟩ := read_bytes_ahead aheadA
  obtain ⟨c,doneC,aheadC⟩ := read_int32_ahead (by decide) aheadB
  obtain ⟨d,doneD,aheadD⟩ := read_int32_ahead (by decide) aheadC
  have whole : read_head ⟨header ++ body,0⟩ = .ok () d := by
    unfold read_head
    rw [bind_ok doneA,bind_ok (require_ok (decide_eq_true rfl)),bind_ok doneB,
      bind_ok (require_ok (decide_eq_true rfl)),bind_ok doneC,bind_ok doneD]
    rfl
  exact ⟨d,by rw [create,whole],aheadD⟩

private theorem read_pair_frame {r : PairBinReader} {pair : Pair} {rest : Bytes}
    (encodable : Encodable pair) (ahead : Ahead r (frame pair ++ rest)) :
    ∃ t, read_pair r = .ok (some pair) t ∧ Ahead t rest := by
  simp only [frame,List.append_assoc] at ahead
  obtain ⟨a,doneA,aheadA⟩ := read_int32_ahead encodable.keySmall ahead
  obtain ⟨b,doneB,aheadB⟩ := read_bytes_ahead aheadA
  obtain ⟨c,doneC,aheadC⟩ := read_int32_ahead encodable.valueSmall aheadB
  obtain ⟨d,doneD,aheadD⟩ := read_bytes_ahead aheadC
  have positive : ¬ (pair.1.length : Int) = 0 := by
    have := List.length_pos_iff.mpr encodable.nonempty
    omega
  refine ⟨d,?_,aheadD⟩
  rw [read_pair,bind_ok doneA,if_neg positive,bind_ok doneB,bind_ok doneC,bind_ok doneD]
  rfl

theorem turn_frame {r : PairBinReader} {pair : Pair} {rest : Bytes} (encodable : Encodable pair)
    (ahead : Ahead r (frame pair ++ rest)) : ∃ t, turn r = .yielded pair t ∧ Ahead t rest := by
  obtain ⟨t,done,after⟩ := read_pair_frame encodable ahead
  have remaining := ahead.remaining
  rw [List.length_append,frame_length] at remaining
  exact ⟨t,by rw [turn,if_pos (by omega),done],after⟩

theorem turn_end {r : PairBinReader} (ahead : Ahead r []) : turn r = .returned r := by
  have remaining := ahead.remaining
  rw [List.length_nil] at remaining
  rw [turn,if_neg (by omega)]

theorem read_all_frames {r : PairBinReader} (pairs : List Pair)
    (encodable : ∀ pair ∈ pairs, Encodable pair) (ahead : Ahead r (frames pairs))
    (fuel : Nat) (enough : pairs.length < fuel) : read_all fuel r = (pairs,.returned) := by
  induction pairs generalizing r fuel with
  | nil =>
    obtain ⟨fuel,rfl⟩ := Nat.exists_eq_succ_of_ne_zero (Nat.ne_of_gt enough)
    rw [read_all,turn_end ahead]
  | cons pair rest ih =>
    obtain ⟨fuel,rfl⟩ := Nat.exists_eq_succ_of_ne_zero (by omega : fuel ≠ 0)
    rw [frames_cons] at ahead
    obtain ⟨t,yielded,after⟩ := turn_frame (encodable pair List.mem_cons_self) ahead
    have later := ih (fun p member => encodable p (List.mem_cons_of_mem _ member)) after fuel
      (by simpa using enough)
    rw [read_all,yielded]
    simp only [later]

end PairBinReader
end Eggroll.Format
