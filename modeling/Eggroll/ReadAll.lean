import Mathlib.Logic.Function.Iterate
import Eggroll.Format

/-! `PairBinReader.read_all` over bytes from anywhere (`_format.py`, `data` given), one
assignment to the offset at a time. The sizes are signed, and the bounds check compares
only with what is left. -/
namespace Eggroll.Format.PairBinReader
open Library Library.PyBytes

abbrev Span := Int × Int

/-- Where `read_all` stands, with the local variables it has set; `old` is `old_offset`. -/
inductive Place
  | loop
  | key_size (old : Int)
  | key (old key_size : Int)
  | value_size (old : Int) (key : Span)
  | value (old : Int) (key : Span) (value_size : Int)
  | yields (old : Int) (key value : Span)
  | returned
  | raised
deriving Repr, DecidableEq

structure Cursor where
  offset : Int
  place : Place
deriving Repr, DecidableEq

namespace Cursor

/-- Up to the next assignment; an IndexError puts the offset back and returns. -/
def step (data : Bytes) (c : Cursor) : Cursor :=
  let size : Int := data.length
  match c.place with
  | .loop => if 0 < size - c.offset then ⟨c.offset,.key_size c.offset⟩ else ⟨c.offset,.returned⟩
  | .key_size old =>
    if size - c.offset - 4 < 0 then ⟨old,.returned⟩
    else
      match unpackFrom data c.offset with
      | none => ⟨c.offset,.raised⟩
      | some key_size => if key_size = 0 then ⟨old,.returned⟩ else ⟨c.offset + 4,.key old key_size⟩
  | .key old key_size =>
    if size - c.offset - key_size < 0 then ⟨old,.returned⟩
    else ⟨c.offset + key_size,.value_size old (c.offset,c.offset + key_size)⟩
  | .value_size old key =>
    if size - c.offset - 4 < 0 then ⟨old,.returned⟩
    else
      match unpackFrom data c.offset with
      | none => ⟨c.offset,.raised⟩
      | some value_size => ⟨c.offset + 4,.value old key value_size⟩
  | .value old key value_size =>
    if size - c.offset - value_size < 0 then ⟨old,.returned⟩
    else ⟨c.offset + value_size,.yields old key (c.offset,c.offset + value_size)⟩
  | .yields _ _ _ => ⟨c.offset,.loop⟩
  | .returned | .raised => c

/-- The generator is exhausted, or it has raised. -/
def Ended (c : Cursor) : Prop := c.place = .returned ∨ c.place = .raised

section
variable {data : Bytes} {offset old : Int}

private theorem step_loop (more : 0 < (data.length : Int) - offset) :
    step data ⟨offset,.loop⟩ = ⟨offset,.key_size offset⟩ := if_pos more

private theorem step_key_size {key_size : Int} (room : ¬ (data.length : Int) - offset - 4 < 0)
    (read : unpackFrom data offset = some key_size) (more : key_size ≠ 0) :
    step data ⟨offset,.key_size old⟩ = ⟨offset + 4,.key old key_size⟩ := by
  simp only [step,if_neg room,read,if_neg more]

private theorem step_key {key_size : Int} (room : ¬ (data.length : Int) - offset - key_size < 0) :
    step data ⟨offset,.key old key_size⟩ =
      ⟨offset + key_size,.value_size old (offset,offset + key_size)⟩ := if_neg room

private theorem step_value_size {key : Span} {value_size : Int} (room : ¬ (data.length : Int) - offset - 4 < 0)
    (read : unpackFrom data offset = some value_size) :
    step data ⟨offset,.value_size old key⟩ = ⟨offset + 4,.value old key value_size⟩ := by
  simp only [step,if_neg room,read]

private theorem step_value {key : Span} {value_size : Int} (room : ¬ (data.length : Int) - offset - value_size < 0) :
    step data ⟨offset,.value old key value_size⟩ =
      ⟨offset + value_size,.yields old key (offset,offset + value_size)⟩ := if_neg room

end

end Cursor

open Cursor in
/-- What the cursor does in a turn of the loop: the pair is made of the slices it has taken. -/
inductive Turned (r : PairBinReader) : Turn → Prop
  | yielded {t : PairBinReader} (n : ℕ) (key value : Span) (same : t.data = r.data)
      (run : (step r.data)^[n] ⟨r.offset,.loop⟩ = ⟨t.offset,.yields r.offset key value⟩) :
      Turned r (.yielded (slice r.data key.1 key.2,slice r.data value.1 value.2) t)
  | returned (n : ℕ) (run : (step r.data)^[n] ⟨r.offset,.loop⟩ = ⟨r.offset,.returned⟩) :
      Turned r (.returned r)
  | raised {e : PyError} {t : PairBinReader} (n : ℕ)
      (run : (step r.data)^[n] ⟨r.offset,.loop⟩ = ⟨t.offset,.raised⟩) : Turned r (.raised e t)

open Cursor in
private theorem turn_cursor (r : PairBinReader) : Turned r (turn r) := by
  obtain ⟨data,offset⟩ := r
  by_cases more : 0 < (data.length : Int) - offset
  case neg =>
    have done : turn ⟨data,offset⟩ = .returned ⟨data,offset⟩ := if_neg more
    rw [done]
    exact .returned 1 (if_neg more)
  have goes_on : 0 < PairBinReader.size ⟨data,offset⟩ - offset := more
  rw [turn,if_pos goes_on]
  by_cases room : (data.length : Int) - offset - 4 < 0
  case pos =>
    have short : read_int32 ⟨data,offset⟩ = .error (.indexError (data.length - offset) 4) ⟨data,offset⟩ :=
      if_pos room
    rw [read_pair,bind_error short]
    refine .returned 2 ?_
    rw [Function.iterate_succ_apply,step_loop more]
    exact if_pos room
  cases read : unpackFrom data offset with
  | none =>
    have bad : read_int32 ⟨data,offset⟩ = .error .structError ⟨data,offset⟩ := by
      simp only [read_int32,PairBinReader.size,if_neg room,read]
    rw [read_pair,bind_error bad]
    refine .raised 2 ?_
    rw [Function.iterate_succ_apply,step_loop more]
    simp only [Function.iterate_one,step,if_neg room,read]
  | some key_size =>
    have first : read_int32 ⟨data,offset⟩ = .ok key_size ⟨data,offset + 4⟩ := by
      simp only [read_int32,PairBinReader.size,if_neg room,read]
    rw [read_pair,bind_ok first]
    by_cases stop : key_size = 0
    case pos =>
      rw [if_pos stop]
      refine .returned 2 ?_
      rw [Function.iterate_succ_apply,step_loop more]
      simp only [Function.iterate_one,step,if_neg room,read,if_pos stop]
    rw [if_neg stop]
    have two : (step data)^[2] ⟨offset,.loop⟩ = ⟨offset + 4,.key offset key_size⟩ := by
      rw [Function.iterate_succ_apply,step_loop more]
      exact step_key_size room read stop
    by_cases key_room : (data.length : Int) - (offset + 4) - key_size < 0
    case pos =>
      have short : read_bytes key_size ⟨data,offset + 4⟩ =
          .error (.indexError (data.length - (offset + 4)) key_size) ⟨data,offset + 4⟩ := if_pos key_room
      rw [bind_error short]
      refine .returned 3 ?_
      rw [Function.iterate_succ_apply',two]
      exact if_pos key_room
    have second : read_bytes key_size ⟨data,offset + 4⟩ =
        .ok (slice data (offset + 4) (offset + 4 + key_size)) ⟨data,offset + 4 + key_size⟩ := if_neg key_room
    rw [bind_ok second]
    have three : (step data)^[3] ⟨offset,.loop⟩ =
        ⟨offset + 4 + key_size,.value_size offset (offset + 4,offset + 4 + key_size)⟩ := by
      rw [Function.iterate_succ_apply',two]
      exact step_key key_room
    by_cases size_room : (data.length : Int) - (offset + 4 + key_size) - 4 < 0
    case pos =>
      have short : read_int32 ⟨data,offset + 4 + key_size⟩ =
          .error (.indexError (data.length - (offset + 4 + key_size)) 4) ⟨data,offset + 4 + key_size⟩ :=
        if_pos size_room
      rw [bind_error short]
      refine .returned 4 ?_
      rw [Function.iterate_succ_apply',three]
      exact if_pos size_room
    cases again : unpackFrom data (offset + 4 + key_size) with
    | none =>
      have bad : read_int32 ⟨data,offset + 4 + key_size⟩ = .error .structError ⟨data,offset + 4 + key_size⟩ := by
        simp only [read_int32,PairBinReader.size,if_neg size_room,again]
      rw [bind_error bad]
      refine .raised 4 ?_
      rw [Function.iterate_succ_apply',three]
      simp only [step,if_neg size_room,again]
    | some value_size =>
      have third : read_int32 ⟨data,offset + 4 + key_size⟩ =
          .ok value_size ⟨data,offset + 4 + key_size + 4⟩ := by
        simp only [read_int32,PairBinReader.size,if_neg size_room,again]
      rw [bind_ok third]
      have four : (step data)^[4] ⟨offset,.loop⟩ = ⟨offset + 4 + key_size + 4,
          .value offset (offset + 4,offset + 4 + key_size) value_size⟩ := by
        rw [Function.iterate_succ_apply',three]
        exact step_value_size size_room again
      by_cases value_room : (data.length : Int) - (offset + 4 + key_size + 4) - value_size < 0
      case pos =>
        have short : read_bytes value_size ⟨data,offset + 4 + key_size + 4⟩ = .error
            (.indexError (data.length - (offset + 4 + key_size + 4)) value_size)
            ⟨data,offset + 4 + key_size + 4⟩ := if_pos value_room
        rw [bind_error short]
        refine .returned 5 ?_
        rw [Function.iterate_succ_apply',four]
        exact if_pos value_room
      have fourth : read_bytes value_size ⟨data,offset + 4 + key_size + 4⟩ =
          .ok (slice data (offset + 4 + key_size + 4) (offset + 4 + key_size + 4 + value_size))
            ⟨data,offset + 4 + key_size + 4 + value_size⟩ := if_neg value_room
      rw [bind_ok fourth]
      refine .yielded 5 (offset + 4,offset + 4 + key_size)
        (offset + 4 + key_size + 4,offset + 4 + key_size + 4 + value_size) rfl ?_
      rw [Function.iterate_succ_apply',four]
      exact step_value value_room

def int32At (data : Bytes) (position : Int) : Option Int :=
  if (data.length : Int) - position - 4 < 0 then none else unpackFrom data position

/-- Whole frames of a key and a value of no negative size lead from the header to here. -/
inductive FrameAt (data : Bytes) : Int → Prop
  | first : FrameAt data 16
  | next {position key_size value_size : Int} (before : FrameAt data position)
      (key : int32At data position = some key_size) (some_key : 0 < key_size)
      (value : int32At data (position + 4 + key_size) = some value_size) (unsigned : 0 ≤ value_size)
      (inside : position + 4 + key_size + 4 + value_size ≤ data.length) :
      FrameAt data (position + 4 + key_size + 4 + value_size)

/-- A negative size at the frame here that gets past the bounds checks: a key size that
leads in front of the data, or to a value that fits, or any value size. -/
def NegativePasses (data : Bytes) (position : Int) : Prop :=
  ∃ key_size, int32At data position = some key_size ∧
    (key_size < 0 ∧ (position + 4 + key_size < 0 ∨
        ∃ value_size, int32At data (position + 4 + key_size) = some value_size ∧
          position + 4 + key_size + 4 + value_size ≤ data.length) ∨
      0 < key_size ∧ position + 4 + key_size ≤ data.length ∧
        ∃ value_size, int32At data (position + 4 + key_size) = some value_size ∧ value_size < 0)

/-- A contiguous part of the data, from `start` on. -/
structure Within (data : Bytes) (start : Int) (span : Span) : Prop where
  after : start ≤ span.1
  order : span.1 ≤ span.2
  inside : span.2 ≤ data.length

/-- Draining from `start` ends, with the offset inside the data all the time; each pair
moves it on and is made of parts of the data behind the header and the pair before. -/
structure Drains (data : Bytes) (start : Int) : Prop where
  ends : ∃ n, ((Cursor.step data)^[n] ⟨start,.loop⟩).Ended
  inside : ∀ n, 0 ≤ ((Cursor.step data)^[n] ⟨start,.loop⟩).offset ∧
    ((Cursor.step data)^[n] ⟨start,.loop⟩).offset ≤ data.length
  yields : ∀ n offset old key value,
    (Cursor.step data)^[n] ⟨start,.loop⟩ = ⟨offset,.yields old key value⟩ →
      old < offset ∧ 16 ≤ old ∧ Within data old key ∧ Within data old value

namespace Cursor
variable {data : Bytes}

private theorem int32At_some {position value : Int} (read : int32At data position = some value) :
    ¬ (data.length : Int) - position - 4 < 0 ∧ unpackFrom data position = some value := by
  unfold int32At at read
  split at read
  · cases read
  · exact ⟨‹_›,read⟩

private theorem run_key {position key_size : Int} (key : int32At data position = some key_size)
    (some_key : key_size ≠ 0) (fits : ¬ (data.length : Int) - (position + 4) - key_size < 0) :
    (step data)^[3] ⟨position,.loop⟩ =
      ⟨position + 4 + key_size,.value_size position (position + 4,position + 4 + key_size)⟩ := by
  obtain ⟨room,read⟩ := int32At_some key
  rw [Function.iterate_succ_apply,step_loop (by omega),Function.iterate_succ_apply,
    step_key_size room read some_key]
  exact step_key fits

private theorem run_value {position key_size value_size : Int} (key : int32At data position = some key_size)
    (some_key : key_size ≠ 0) (fits : ¬ (data.length : Int) - (position + 4) - key_size < 0)
    (value : int32At data (position + 4 + key_size) = some value_size)
    (inside : position + 4 + key_size + 4 + value_size ≤ data.length) :
    (step data)^[5] ⟨position,.loop⟩ = ⟨position + 4 + key_size + 4 + value_size,
      .yields position (position + 4,position + 4 + key_size)
        (position + 4 + key_size + 4,position + 4 + key_size + 4 + value_size)⟩ := by
  obtain ⟨room,read⟩ := int32At_some value
  rw [show 5 = 2 + 3 from rfl,Function.iterate_add_apply,run_key key some_key fits,
    Function.iterate_succ_apply,step_value_size room read]
  exact step_value (by omega)

private theorem frameAt_reached {position : Int} (frame : FrameAt data position) :
    ∃ n, (step data)^[n] ⟨16,.loop⟩ = ⟨position,.loop⟩ := by
  induction frame with
  | first => exact ⟨0,rfl⟩
  | next before key some_key value unsigned inside ih =>
    obtain ⟨n,run⟩ := ih
    refine ⟨6 + n,?_⟩
    rw [Function.iterate_add_apply,run,Function.iterate_succ_apply',
      run_value key (by omega) (by omega) value inside]
    rfl

def Sound (data : Bytes) (c : Cursor) : Prop :=
  match c.place with
  | .loop => FrameAt data c.offset ∧ 16 ≤ c.offset ∧ c.offset ≤ data.length
  | .key_size old => c.offset = old ∧ FrameAt data old ∧ 16 ≤ old ∧ old ≤ data.length
  | .key old key_size => c.offset = old + 4 ∧ FrameAt data old ∧ 16 ≤ old ∧ old + 4 ≤ data.length ∧
      key_size ≠ 0 ∧ int32At data old = some key_size
  | .value_size old key => ∃ key_size, c.offset = old + 4 + key_size ∧ FrameAt data old ∧ 16 ≤ old ∧
      0 ≤ c.offset ∧ c.offset ≤ data.length ∧ key_size ≠ 0 ∧ int32At data old = some key_size ∧
      key = (old + 4,c.offset)
  | .value old key value_size => ∃ key_size, c.offset = old + 4 + key_size + 4 ∧ FrameAt data old ∧
      16 ≤ old ∧ 0 ≤ c.offset ∧ c.offset ≤ data.length ∧ key_size ≠ 0 ∧ int32At data old = some key_size ∧
      int32At data (old + 4 + key_size) = some value_size ∧ key = (old + 4,old + 4 + key_size)
  | .yields old key value => FrameAt data c.offset ∧ old < c.offset ∧ c.offset ≤ data.length ∧ 16 ≤ old ∧
      Within data old key ∧ Within data old value
  | .returned | .raised => 0 ≤ c.offset ∧ c.offset ≤ data.length

theorem Sound.inside {c : Cursor} (sound : Sound data c) : 0 ≤ c.offset ∧ c.offset ≤ data.length := by
  unfold Sound at sound
  split at sound
  case h_4 | h_5 =>
    obtain ⟨key_size,place⟩ := sound
    omega
  all_goals omega

theorem Sound.step (careful : ∀ position, FrameAt data position → ¬ NegativePasses data position)
    {c : Cursor} (sound : Sound data c) : Sound data (c.step data) := by
  have bounds := sound.inside
  obtain ⟨offset,place⟩ := c
  cases place with
  | loop =>
    obtain ⟨frame,above,below⟩ := sound
    simp only [Cursor.step]
    split
    · exact ⟨rfl,frame,above,below⟩
    · exact bounds
  | key_size old =>
    obtain ⟨at_old,frame,above,below⟩ := sound
    dsimp only at at_old bounds
    subst at_old
    simp only [Cursor.step]
    split
    · exact bounds
    · rename_i room
      split
      · exact bounds
      · rename_i key_size read
        split
        · exact bounds
        · rename_i some_key
          exact ⟨rfl,frame,above,by omega,some_key,by rw [int32At,if_neg room,read]⟩
  | key old key_size =>
    obtain ⟨at_key,frame,above,below,some_key,key⟩ := sound
    dsimp only at at_key
    subst at_key
    simp only [Cursor.step]
    split
    · exact ⟨by simp only; omega,by simp only; omega⟩
    · rename_i fits
      have forward : 0 ≤ old + 4 + key_size := by
        by_contra back
        exact careful old frame ⟨key_size,key,.inl ⟨by omega,.inl (by omega)⟩⟩
      exact ⟨key_size,rfl,frame,above,forward,by simp only; omega,some_key,key,rfl⟩
  | value_size old key =>
    obtain ⟨key_size,at_value,frame,above,-,below,some_key,read_key,same⟩ := sound
    dsimp only at at_value below bounds same
    subst at_value same
    have frame_inside : old ≤ data.length := by
      have := (int32At_some read_key).1
      omega
    simp only [Cursor.step]
    split
    · exact ⟨by simp only; omega,by simp only; omega⟩
    · rename_i room
      split
      · exact bounds
      · rename_i value_size read
        exact ⟨key_size,rfl,frame,above,by simp only; omega,by simp only; omega,some_key,read_key,
          by rw [int32At,if_neg room,read],rfl⟩
  | value old key value_size =>
    obtain ⟨key_size,at_value,frame,above,-,below,some_key,read_key,read_value,same⟩ := sound
    dsimp only at at_value below bounds same
    subst at_value same
    have frame_inside : old ≤ data.length := by
      have := (int32At_some read_key).1
      omega
    simp only [Cursor.step]
    split
    · exact ⟨by simp only; omega,by simp only; omega⟩
    · rename_i fits
      have inside : old + 4 + key_size + 4 + value_size ≤ data.length := by omega
      have forward : 0 < key_size := by
        by_contra back
        exact careful old frame ⟨key_size,read_key,.inl ⟨by omega,.inr ⟨value_size,read_value,inside⟩⟩⟩
      have unsigned : 0 ≤ value_size := by
        by_contra back
        have key_inside := (int32At_some read_value).1
        exact careful old frame ⟨key_size,read_key,.inr ⟨forward,by omega,value_size,read_value,by omega⟩⟩
      refine ⟨.next frame read_key forward read_value unsigned inside,?_,inside,above,⟨?_,?_,?_⟩,⟨?_,?_,?_⟩⟩
      all_goals
        simp only
        omega
  | yields old key value =>
    obtain ⟨frame,more,below,above,-,-⟩ := sound
    exact ⟨frame,by simp only [Cursor.step] at *; omega,below⟩
  | returned => exact sound
  | raised => exact sound

theorem Sound.run (careful : ∀ position, FrameAt data position → ¬ NegativePasses data position)
    (room : 16 ≤ data.length) (n : ℕ) : Sound data ((Cursor.step data)^[n] ⟨16,.loop⟩) := by
  induction n with
  | zero => exact ⟨.first,Int.le_refl 16,by simp only [Function.iterate_zero,id]; omega⟩
  | succ n ih =>
    rw [Function.iterate_succ_apply']
    exact ih.step careful

theorem drained (careful : ∀ position, FrameAt data position → ¬ NegativePasses data position)
    (left : ℕ) {n : ℕ} {position : Int} (room : 16 ≤ data.length)
    (there : (Cursor.step data)^[n] ⟨16,.loop⟩ = ⟨position,.loop⟩) (enough : (data.length : Int) - position ≤ left) :
    ∃ m, ((Cursor.step data)^[m] ⟨16,.loop⟩).Ended := by
  induction left using Nat.strong_induction_on generalizing n position with
  | _ left ih =>
    have turned := turn_cursor ⟨data,position⟩
    generalize turn ⟨data,position⟩ = answer at turned
    cases turned with
    | @yielded t k key value same run =>
      have arrived : (Cursor.step data)^[k + n] ⟨16,.loop⟩ = ⟨t.offset,.yields position key value⟩ := by
        rw [Function.iterate_add_apply,there,run]
      have sound := Sound.run careful room (k + n)
      rw [arrived] at sound
      obtain ⟨-,more,below,above,-⟩ := sound
      dsimp only at more below
      have next : (Cursor.step data)^[k + n + 1] ⟨16,.loop⟩ = ⟨t.offset,.loop⟩ := by
        rw [Function.iterate_succ_apply',arrived]
        rfl
      exact ih (data.length - t.offset).toNat (by omega) next (by omega)
    | returned k run =>
      exact ⟨k + n,.inl (by rw [Function.iterate_add_apply,there,run])⟩
    | raised k run =>
      exact ⟨k + n,.inr (by rw [Function.iterate_add_apply,there,run])⟩

private theorem not_drains {position : Int} (frame : FrameAt data position) (passes : NegativePasses data position) :
    ¬ Drains data 16 := by
  rintro ⟨-,inside,yields⟩
  obtain ⟨n,there⟩ := frameAt_reached frame
  have then_run (m : ℕ) : (step data)^[m + n] ⟨16,.loop⟩ = (step data)^[m] ⟨position,.loop⟩ := by
    rw [Function.iterate_add_apply,there]
  obtain ⟨key_size,key,⟨negative,back | ⟨value_size,value,fits⟩⟩ | ⟨positive,fits,value_size,value,negative⟩⟩ :=
    passes
  · have room := (int32At_some key).1
    have bad := inside (3 + n)
    rw [then_run,run_key key (by omega) (by omega)] at bad
    dsimp only at bad
    omega
  · have room := (int32At_some key).1
    have taken := yields (5 + n) _ _ _ _ ((then_run 5).trans (run_value key (by omega) (by omega) value fits))
    have order := taken.2.2.1.order
    dsimp only at order
    omega
  · have room := (int32At_some value).1
    have taken := yields (5 + n) _ _ _ _
      ((then_run 5).trans (run_value key (by omega) (by omega) value (by omega)))
    have order := taken.2.2.2.order
    dsimp only at order
    omega

end Cursor

theorem read_head_inside (data : Bytes) :
    0 ≤ (after (read_head ⟨data,0⟩)).offset ∧ (after (read_head ⟨data,0⟩)).offset ≤ data.length := by
  let Inside : PairBinReader → Prop := fun r => r.data = data ∧ 0 ≤ r.offset ∧ r.offset ≤ data.length
  have bytes (n : ℕ) : Keeps Inside (read_bytes n) := by
    rintro r ⟨same,low,high⟩
    unfold read_bytes
    split
    · exact ⟨same,low,high⟩
    · rename_i room
      rw [PairBinReader.size,same] at room
      exact ⟨same,by simp only [after_ok]; omega,by simp only [after_ok]; omega⟩
  have int32 : Keeps Inside read_int32 := by
    rintro r ⟨same,low,high⟩
    unfold read_int32
    split
    · exact ⟨same,low,high⟩
    · rename_i room
      rw [PairBinReader.size,same] at room
      split
      · exact ⟨same,low,high⟩
      · exact ⟨same,by simp only [after_ok]; omega,by simp only [after_ok]; omega⟩
  have checked (condition : Bool) (message : String) : Keeps Inside (require condition message) := by
    intro r inside
    unfold require
    split <;> exact inside
  have whole : Keeps Inside read_head :=
    (bytes _).bind fun _ => (checked _ _).bind fun _ => (bytes _).bind fun _ => (checked _ _).bind fun _ =>
      int32.bind fun _ => int32.bind fun _ => Keeps.bind (fun _ inside => inside) fun _ => checked _ _
  exact (whole ⟨data,0⟩ ⟨rfl,Int.le_refl 0,Int.natCast_nonneg _⟩).2

private theorem read_bytes_moves {r t : PairBinReader} {n : Int} {value : Bytes} (done : read_bytes n r = .ok value t) :
    t = { r with offset := r.offset + n } ∧ ¬ r.size - r.offset - n < 0 := by
  unfold read_bytes at done
  split at done <;> cases done
  exact ⟨rfl,‹_›⟩

private theorem read_int32_moves {r t : PairBinReader} {value : Int} (done : read_int32 r = .ok value t) :
    t = { r with offset := r.offset + 4 } ∧ ¬ r.size - r.offset - 4 < 0 := by
  unfold read_int32 at done
  split at done
  · cases done
  · split at done <;> cases done
    exact ⟨rfl,‹_›⟩

private theorem require_moves {r t : PairBinReader} {condition : Bool} {message : String}
    (done : require condition message r = .ok () t) : t = r := by
  unfold require at done
  split at done <;> cases done
  rfl

private theorem create_offset {data : Bytes} {r : PairBinReader} (created : create data = .ok r) :
    r = ⟨data,16⟩ ∧ 16 ≤ data.length := by
  unfold create at created
  split at created <;> cases created
  rename_i done
  obtain ⟨_,a,magic,done⟩ := bind_eq_ok done
  obtain ⟨_,b,checked,done⟩ := bind_eq_ok done
  cases require_moves checked
  obtain ⟨_,b,version,done⟩ := bind_eq_ok done
  obtain ⟨_,c,checked,done⟩ := bind_eq_ok done
  cases require_moves checked
  obtain ⟨_,c,head,done⟩ := bind_eq_ok done
  obtain ⟨_,d,body,done⟩ := bind_eq_ok done
  obtain ⟨_,e,got,done⟩ := bind_eq_ok done
  cases got
  cases require_moves done
  obtain ⟨rfl,-⟩ := read_bytes_moves magic
  obtain ⟨rfl,-⟩ := read_bytes_moves version
  obtain ⟨rfl,-⟩ := read_int32_moves head
  obtain ⟨rfl,room⟩ := read_int32_moves body
  simp only [MAGIC_NUM,PROTOCOL_VERSION,PairBinReader.size,List.length_cons,List.length_nil] at room
  exact ⟨rfl,by omega⟩

/-- Constructing a reader and draining it handles the bytes: the offset stays inside, the
drain ends and yields parts of the data in their order. -/
structure Handled (data : Bytes) : Prop where
  head : 0 ≤ (after (read_head ⟨data,0⟩)).offset ∧ (after (read_head ⟨data,0⟩)).offset ≤ data.length
  drains : ∀ r, create data = .ok r → Drains data r.offset

/-- The bytes that a reader accepts and handles are those in which no negative size gets
past its bounds checks. -/
theorem read_all_handled (data : Bytes) :
    Handled data ↔ ∀ r, create data = .ok r → ∀ position, FrameAt data position → ¬ NegativePasses data position := by
  constructor
  · intro handled r created position frame passes
    have drains := handled.drains r created
    rw [(create_offset created).1] at drains
    exact Cursor.not_drains frame passes drains
  · intro careful
    refine ⟨read_head_inside data,fun r created => ?_⟩
    obtain ⟨rfl,room⟩ := create_offset created
    have careful := careful _ created
    refine ⟨?_,fun n => (Cursor.Sound.run careful room n).inside,fun n offset old key value at_pair => ?_⟩
    · exact Cursor.drained careful (data.length - 16) room (n := 0) rfl (by omega)
    · have sound := Cursor.Sound.run careful room n
      rw [at_pair] at sound
      obtain ⟨-,more,-,above,key_within,value_within⟩ := sound
      exact ⟨more,above,key_within,value_within⟩

/-- A header and a key size of minus four. -/
def minusFour : Bytes := header ++ packInt (-4)

/-- The reader yields empty pairs from it for ever and never gets on. -/
theorem minusFour_unhandled : ¬ Handled minusFour ∧
    ∀ n, ¬ ((Cursor.step minusFour)^[n] ⟨16,.loop⟩).Ended := by
  have created : create minusFour = .ok ⟨minusFour,16⟩ := by decide +kernel
  have round : (Cursor.step minusFour)^[6] ⟨16,.loop⟩ = ⟨16,.loop⟩ := by decide +kernel
  have cycle (n : ℕ) : (Cursor.step minusFour)^[n] ⟨16,.loop⟩ = (Cursor.step minusFour)^[n % 6] ⟨16,.loop⟩ := by
    conv_lhs => rw [← Nat.mod_add_div n 6,Function.iterate_add_apply,Function.iterate_mul]
    rw [Function.iterate_fixed round]
  have going : ∀ m < 6, ((Cursor.step minusFour)^[m] ⟨16,.loop⟩).place ≠ .returned ∧
      ((Cursor.step minusFour)^[m] ⟨16,.loop⟩).place ≠ .raised := by decide +kernel
  have never (n : ℕ) : ¬ ((Cursor.step minusFour)^[n] ⟨16,.loop⟩).Ended := by
    rw [cycle n,Cursor.Ended,not_or]
    exact going (n % 6) (Nat.mod_lt n (by decide))
  refine ⟨fun handled => ?_,never⟩
  obtain ⟨n,ended⟩ := (handled.drains _ created).ends
  exact never n ended

end Eggroll.Format.PairBinReader
