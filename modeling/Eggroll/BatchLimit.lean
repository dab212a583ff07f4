import Eggroll.BinBatch

/-! The limit of `pair_to_bin_batch`. A pair that did not fit its buffer is written into a
new one on a branch that neither counts it nor looks at the limit, so the limit is kept when
no pair before it overflows. How the loop fills its buffers depends on sizes only (`Fill`). -/
namespace Eggroll.BinBatch
open Library Format

/-- `GetAll.run` on the pairs of a partition; a negative limit stands for none. -/
def GetAll.run (configured : Int) (items : List Pair) (limit : Int) : List (Option Bytes) × Ending :=
  pair_to_bin_batch configured ⟨items,none⟩ (if limit < 0 then none else some limit) (-1)

/-- What a receiver makes of the batches. -/
def DecodesTo (batches : List (Option Bytes)) (pairs : List Pair) : Prop :=
  ∀ fuel, pairs.length < fuel → bin_batch_to_pair fuel batches = (pairs,.returned)

/-- The buffer in use: its size, the bytes used in it, and the pairs that were counted, that
were written and that were in earlier buffers. -/
structure Fill where
  size : Nat
  used : Nat
  pair_count : Nat
  written : Nat
  closed : Nat
deriving Repr, DecidableEq

namespace Fill

def start (sendbuf_size : Nat) : Fill := ⟨sendbuf_size,16,0,0,0⟩

def Overflows (l : Fill) (pair : Pair) : Prop := l.size < l.used + (frame pair).length

instance (l : Fill) (pair : Pair) : Decidable (l.Overflows pair) := inferInstanceAs (Decidable (_ < _))

def Bursts (l : Fill) (pair : Pair) : Prop := l.size < l.used + PairBinWriter.reach pair

instance (l : Fill) (pair : Pair) : Decidable (l.Bursts pair) := inferInstanceAs (Decidable (_ < _))

def place (sendbuf_size : Nat) (l : Fill) (pair : Pair) : Fill :=
  if l.Overflows pair then
    ⟨max sendbuf_size (pair.1.length + pair.2.length + 1024),16 + (frame pair).length,l.pair_count,
      l.written + 1,l.written⟩
  else { l with used := l.used + (frame pair).length, pair_count := l.pair_count + 1, written := l.written + 1 }

def placeAll (sendbuf_size : Nat) (pairs : List Pair) (l : Fill) : Fill := pairs.foldl (place sendbuf_size) l

end Fill

/-- After the first `n` pairs, of which some overflowed, a pair without frame ends the input
before the limit does, and the buffers given away by then hold the first `n` pairs. -/
def Interrupted (sendbuf_size n : Nat) (pairs : List Pair) : Prop :=
  ∃ more bad rest, pairs.drop n = more ++ bad :: rest ∧ (∀ pair ∈ more, Format.Encodable pair) ∧ ¬ Format.Encodable bad ∧
    let l := (Fill.start sendbuf_size).placeAll sendbuf_size (pairs.take n ++ more)
    l.pair_count < n ∧ if l.Bursts bad then more = [] else l.closed = n

/-- The condition on the input under which the limit is kept. -/
structure WithinLimit (sendbuf_size n : Nat) (pairs : List Pair) : Prop where
  encodable : ∀ pair ∈ pairs.take n, Format.Encodable pair
  room : pairs.length ≤ n ∨ 16 + (frames (pairs.take n)).length ≤ sendbuf_size ∨ Interrupted sendbuf_size n pairs

def Fill.given (sendbuf_size n : Nat) : List Pair → Fill → Nat
  | [], l => l.written
  | pair :: rest, l =>
    if Format.Encodable pair then
      if ¬ l.Overflows pair ∧ n ≤ l.pair_count + 1 then l.written + 1
      else given sendbuf_size n rest (l.place sendbuf_size pair)
    else if l.Bursts pair then l.written
    else l.closed

/-- The encoder has come to `l`; what it has not given away are the last of the pairs `done`. -/
structure Filled (e : Encoder) (l : Fill) (done : List Pair) : Prop where
  holds : Holds e.writer (done.drop l.closed)
  size : e.writer.1 = l.size
  used : l.used = 16 + (frames (done.drop l.closed)).length
  pair_count : e.pair_count = l.pair_count
  written : l.written = done.length
  closed : l.closed ≤ done.length

namespace Filled
variable (sendbuf_size n : Nat) {e : Encoder} {l : Fill} {done : List Pair} {pair : Pair}

theorem offset (filled : Filled e l done) : e.writer.2.offset = l.used := by
  rw [← PairBinWriter.content_length,filled.holds.content,batchOf,List.length_append,header_length,filled.used]

theorem fits (filled : Filled e l done) (encodable : Format.Encodable pair) (room : ¬ l.Overflows pair) :
    ∃ e', turn sendbuf_size (some n) e pair =
        ([],if n ≤ l.pair_count + 1 then .broke e' else .next e') ∧
      Filled e' (l.place sendbuf_size pair) (done ++ [pair]) := by
  have inside : e.writer.2.offset + (frame pair).length ≤ e.writer.1 := by
    rw [filled.offset,filled.size]
    exact Nat.le_of_not_lt room
  obtain ⟨w,written,held⟩ := filled.holds.write encodable inside
  refine ⟨⟨⟨_,w⟩,e.pair_count + 1⟩,?_,?_⟩
  · simp only [turn,written,filled.pair_count,Option.any_some,decide_eq_true_eq]
    by_cases last : n ≤ l.pair_count + 1
    · rw [if_pos last,if_pos (by omega)]
    · rw [if_neg last,if_neg (by omega)]
  · have closed := filled.closed
    have later : (done ++ [pair]).drop l.closed = done.drop l.closed ++ [pair] :=
      List.drop_append_of_le_length closed
    rw [Fill.place,if_neg room]
    constructor
    · rw [later]
      exact held
    · exact filled.size
    · simp only [later,frames_append,frames_singleton,List.length_append,filled.used,Nat.add_assoc]
    · exact congrArg (· + 1) filled.pair_count
    · simp only [filled.written,List.length_append,List.length_singleton]
    · simp only [List.length_append,List.length_singleton]
      omega

theorem commits (filled : Filled e l done) (size : Int) (room : 16 ≤ size) {w : PairBinWriter e.writer.1}
    (same : w.content = e.writer.2.content) :
    ∃ fresh, commit size (some ⟨e.writer.1,w⟩) = .ok (some (batchOf (done.drop l.closed)),fresh) ∧
      fresh.1 = size ∧ fresh.2.offset = 16 ∧ Holds fresh [] := by
  have back : Holds ⟨e.writer.1,w⟩ (done.drop l.closed) := ⟨same.trans filled.holds.content⟩
  obtain ⟨fresh,committed,length,offset,empty⟩ := commit_ok size (some ⟨_,w⟩) room
  rw [back.taken] at committed
  exact ⟨fresh,committed,length,offset,empty⟩

private theorem overflows (filled : Filled e l done) (room : 16 ≤ sendbuf_size) (encodable : Format.Encodable pair)
    (full : l.Overflows pair) :
    ∃ e', turn sendbuf_size (some n) e pair = ([some (batchOf (done.drop l.closed))],.next e') ∧
      Filled e' (l.place sendbuf_size pair) (done ++ [pair]) := by
  have outside : e.writer.1 < e.writer.2.offset + (frame pair).length := by
    rw [filled.offset,filled.size]
    exact full
  obtain ⟨w,remaining,required,raised,-,same⟩ :=
    PairBinWriter.write_overflow e.writer.2 pair encodable outside
  obtain ⟨fresh,committed,size,offset,empty⟩ :=
    filled.commits (max sendbuf_size (pair.1.length + pair.2.length + 1024)) (by omega) same
  obtain ⟨w',written,held⟩ := empty.write encodable (by rw [frame_length]; omega)
  refine ⟨⟨⟨_,w'⟩,e.pair_count⟩,?_,?_⟩
  · simp only [turn,raised,committed,written]
  · have alone : (done ++ [pair]).drop l.written = [pair] := by rw [filled.written,List.drop_left]
    rw [Fill.place,if_pos full]
    constructor
    · rw [alone]
      exact held
    · change fresh.1 = max sendbuf_size _
      omega
    · simp only [alone,frames_singleton]
    · exact filled.pair_count
    · simp only [filled.written,List.length_append,List.length_singleton]
    · simp only [filled.written,List.length_append]
      omega

theorem interrupts (filled : Filled e l done) (room : 16 ≤ sendbuf_size) (nonempty : pair.1 ≠ [])
    (unencodable : ¬ Format.Encodable pair) :
    turn sendbuf_size (some n) e pair =
      (if l.Bursts pair then [some (batchOf (done.drop l.closed))] else [],.raised .structError) := by
  by_cases bursts : l.Bursts pair
  · have outside : e.writer.1 < e.writer.2.offset + PairBinWriter.reach pair := by
      rw [filled.offset,filled.size]
      exact bursts
    obtain ⟨w,remaining,required,raised,same⟩ := PairBinWriter.write_no_room e.writer.2 pair outside
    obtain ⟨fresh,committed,size,offset,-⟩ :=
      filled.commits (max sendbuf_size (pair.1.length + pair.2.length + 1024)) (by omega) same
    have inside : fresh.2.offset + PairBinWriter.reach pair ≤ fresh.1 := by
      unfold PairBinWriter.reach
      split <;> omega
    obtain ⟨w',stopped⟩ := PairBinWriter.write_struct_error fresh.2 pair nonempty unencodable inside
    simp only [turn,raised,committed,stopped,if_pos bursts]
  · have inside : e.writer.2.offset + PairBinWriter.reach pair ≤ e.writer.1 := by
      rw [filled.offset,filled.size]
      exact Nat.le_of_not_lt bursts
    obtain ⟨w,stopped⟩ := PairBinWriter.write_struct_error e.writer.2 pair nonempty unencodable inside
    simp only [turn,stopped,if_neg bursts]

theorem encode (room : 16 ≤ sendbuf_size) (pairs : List Pair) (nonempty : ∀ pair ∈ pairs, pair.1 ≠ [])
    (filled : Filled e l done) :
    ∃ groups : List (List Pair), (BinBatch.encode sendbuf_size (some n) none pairs e).1 =
        groups.map (fun group => some (batchOf group)) ∧
      done.take l.closed ++ groups.flatten = (done ++ pairs).take (l.given sendbuf_size n pairs) := by
  have all := List.take_append_drop l.closed done
  induction pairs generalizing e l done with
  | nil =>
    refine ⟨[done.drop l.closed],?_,?_⟩
    · simp only [BinBatch.encode,finish_ok (by omega : (16 : Int) ≤ sendbuf_size) filled.holds,List.map_cons,
        List.map_nil]
    · rw [List.flatten_singleton,all,Fill.given,filled.written,List.append_nil,List.take_length]
  | cons pair rest ih =>
    have others : ∀ p ∈ rest, p.1 ≠ [] := fun p member => nonempty p (List.mem_cons_of_mem _ member)
    by_cases encodable : Format.Encodable pair
    case neg =>
      have stopped := filled.interrupts sendbuf_size n room (nonempty pair List.mem_cons_self) encodable
      rw [Fill.given,if_neg encodable]
      by_cases bursts : l.Bursts pair
      · refine ⟨[done.drop l.closed],?_,?_⟩
        · simp only [BinBatch.encode,stopped,if_pos bursts,List.map_cons,List.map_nil]
        · rw [List.flatten_singleton,all,if_pos bursts,filled.written,List.take_left]
      · refine ⟨[],?_,?_⟩
        · simp only [BinBatch.encode,stopped,if_neg bursts,List.map_nil]
        · rw [List.flatten_nil,List.append_nil,if_neg bursts,List.take_append_of_le_length filled.closed]
    rw [Fill.given,if_pos encodable,List.append_cons]
    by_cases full : l.Overflows pair
    · obtain ⟨e',stepped,filled'⟩ := filled.overflows sendbuf_size n room encodable full
      obtain ⟨groups,encoded,joined⟩ := ih others filled' (List.take_append_drop _ _)
      refine ⟨done.drop l.closed :: groups,?_,?_⟩
      · simp only [BinBatch.encode,stepped,encoded,List.map_cons,List.cons_append,List.nil_append]
      · have closed : (l.place sendbuf_size pair).closed = done.length := by
          rw [Fill.place,if_pos full,filled.written]
        rw [closed,List.take_left] at joined
        rw [List.flatten_cons,← List.append_assoc,all,joined,if_neg (fun both => both.1 full)]
    · obtain ⟨e',stepped,filled'⟩ := filled.fits sendbuf_size n encodable full
      have closed : (l.place sendbuf_size pair).closed = l.closed := by rw [Fill.place,if_neg full]
      by_cases last : n ≤ l.pair_count + 1
      · refine ⟨[(done ++ [pair]).drop l.closed],?_,?_⟩
        · have finished := finish_ok (by omega : (16 : Int) ≤ sendbuf_size) filled'.holds
          rw [closed] at finished
          simp only [BinBatch.encode,stepped,if_pos last,finished,List.map_cons,List.map_nil,List.nil_append]
        · have written : l.written + 1 = (done ++ [pair]).length := by
            rw [filled.written,List.length_append,List.length_singleton]
          rw [List.flatten_singleton,if_pos ⟨full,last⟩,written,List.take_left,
            List.drop_append_of_le_length filled.closed,← List.append_assoc,all]
      · obtain ⟨groups,encoded,joined⟩ := ih others filled' (List.take_append_drop _ _)
        refine ⟨groups,?_,?_⟩
        · simp only [BinBatch.encode,stepped,if_neg last,encoded,List.nil_append]
        · rw [closed,List.take_append_of_le_length filled.closed] at joined
          rw [joined,if_neg (fun both => last both.2)]

end Filled

namespace Fill
variable (sendbuf_size n : Nat) {l : Fill} {pair : Pair}

@[simp] theorem place_written : (l.place sendbuf_size pair).written = l.written + 1 := by
  unfold place
  split <;> rfl

theorem place_pair_count : (l.place sendbuf_size pair).pair_count =
    if l.Overflows pair then l.pair_count else l.pair_count + 1 := by
  unfold place
  split <;> rfl

private theorem place_closed (closed : l.closed ≤ l.written) : (l.place sendbuf_size pair).closed ≤ l.written := by
  unfold place
  split
  · exact Nat.le_refl _
  · exact closed

private theorem placeAll_written (pairs : List Pair) : (l.placeAll sendbuf_size pairs).written = l.written + pairs.length := by
  induction pairs generalizing l with
  | nil => rfl
  | cons pair rest ih =>
    rw [placeAll,List.foldl_cons,← placeAll,ih,place_written,List.length_cons]
    omega

private theorem le_placeAll (pairs : List Pair) : l.pair_count ≤ (l.placeAll sendbuf_size pairs).pair_count := by
  induction pairs generalizing l with
  | nil => exact Nat.le_refl _
  | cons pair rest ih =>
    apply Nat.le_trans _ ih
    rw [place_pair_count]
    split <;> omega

private theorem placeAll_le (pairs : List Pair) :
    (l.placeAll sendbuf_size pairs).pair_count ≤ l.pair_count + pairs.length := by
  induction pairs generalizing l with
  | nil => exact Nat.le_refl _
  | cons pair rest ih =>
    have later := ih (l := l.place sendbuf_size pair)
    rw [place_pair_count] at later
    rw [placeAll,List.foldl_cons,← placeAll,List.length_cons]
    split at later <;> omega

private theorem placeAll_lt (pairs : List Pair) (full : l.size < l.used + (frames pairs).length) (some_ : pairs ≠ []) :
    (l.placeAll sendbuf_size pairs).pair_count < l.pair_count + pairs.length := by
  induction pairs generalizing l with
  | nil => exact absurd rfl some_
  | cons pair rest ih =>
    rw [placeAll,List.foldl_cons,← placeAll,List.length_cons]
    by_cases overflows : l.Overflows pair
    · have later := placeAll_le sendbuf_size rest (l := l.place sendbuf_size pair)
      rw [place_pair_count,if_pos overflows] at later
      omega
    · have more : rest ≠ [] := by
        rintro rfl
        rw [frames_singleton] at full
        exact overflows full
      have later := ih (l := l.place sendbuf_size pair) (by
        rw [frames_cons,List.length_append] at full
        rw [place,if_neg overflows]
        simp only
        omega) more
      rw [place_pair_count,if_neg overflows] at later
      omega

private theorem given_append (first rest : List Pair) (encodable : ∀ pair ∈ first, Format.Encodable pair)
    (below : (l.placeAll sendbuf_size first).pair_count < n) :
    l.given sendbuf_size n (first ++ rest) = (l.placeAll sendbuf_size first).given sendbuf_size n rest := by
  induction first generalizing l with
  | nil => rfl
  | cons pair first ih =>
    have goes : ¬ (¬ l.Overflows pair ∧ n ≤ l.pair_count + 1) := by
      rintro ⟨fits,last⟩
      have counted := le_placeAll sendbuf_size first (l := l.place sendbuf_size pair)
      rw [place_pair_count,if_neg fits] at counted
      exact absurd (last.trans counted) (Nat.not_le_of_lt below)
    rw [List.cons_append,given,if_pos (encodable pair List.mem_cons_self),if_neg goes]
    exact ih (fun p member => encodable p (List.mem_cons_of_mem _ member)) below

private theorem encodable_of_given (pairs : List Pair) (counted : l.pair_count ≤ l.written) (closed : l.closed ≤ l.written)
    (whole : l.given sendbuf_size n pairs = min n (l.written + pairs.length)) :
    ∀ pair ∈ pairs.take (n - l.written), Format.Encodable pair := by
  induction pairs generalizing l with
  | nil =>
    intro pair member
    rw [List.take_nil] at member
    exact absurd member List.not_mem_nil
  | cons first rest ih =>
    intro pair member
    rcases Nat.lt_or_ge l.written n with below | above
    case inr =>
      rw [Nat.sub_eq_zero_of_le above,List.take_zero] at member
      exact absurd member List.not_mem_nil
    rw [given,List.length_cons] at whole
    by_cases encodable : Format.Encodable first
    case neg =>
      rw [if_neg encodable] at whole
      split at whole <;> omega
    rw [if_pos encodable] at whole
    have rest_length : n - l.written = n - (l.written + 1) + 1 := by omega
    rw [rest_length,List.take_succ_cons] at member
    rcases List.mem_cons.mp member with rfl | later
    · exact encodable
    split at whole
    · rename_i last
      rw [Nat.sub_eq_zero_of_le (last.2.trans (Nat.succ_le_succ counted)),List.take_zero] at later
      exact absurd later List.not_mem_nil
    · apply ih (l := l.place sendbuf_size first) _ _ _ pair
      · rw [place_written]
        exact later
      · rw [place_pair_count,place_written]
        split <;> omega
      · rw [place_written]
        exact (place_closed sendbuf_size closed).trans (Nat.le_succ _)
      · rw [whole,place_written]
        omega

private theorem given_of_short (pairs : List Pair) (encodable : ∀ pair ∈ pairs, Format.Encodable pair)
    (counted : l.pair_count ≤ l.written) (short : l.written + pairs.length ≤ n) :
    l.given sendbuf_size n pairs = l.written + pairs.length := by
  induction pairs generalizing l with
  | nil => rfl
  | cons pair rest ih =>
    rw [List.length_cons] at short ⊢
    rw [given,if_pos (encodable pair List.mem_cons_self)]
    split
    · omega
    · rw [ih (fun p member => encodable p (List.mem_cons_of_mem _ member)),place_written]
      · omega
      · rw [place_pair_count,place_written]
        split <;> omega
      · rw [place_written]
        omega

private theorem given_of_room (pairs : List Pair) (counted : l.pair_count = l.written) (below : l.written < n)
    (encodable : ∀ pair ∈ pairs.take (n - l.written), Format.Encodable pair)
    (room : l.used + (frames (pairs.take (n - l.written))).length ≤ l.size) :
    l.given sendbuf_size n pairs = min n (l.written + pairs.length) := by
  induction pairs generalizing l with
  | nil =>
    rw [given,List.length_nil]
    omega
  | cons pair rest ih =>
    have rest_length : n - l.written = n - (l.written + 1) + 1 := by omega
    rw [rest_length,List.take_succ_cons] at encodable room
    rw [frames_cons,List.length_append] at room
    have fits : ¬ l.Overflows pair := by
      unfold Overflows
      omega
    rw [given,if_pos (encodable pair List.mem_cons_self),List.length_cons]
    split
    · omega
    · rename_i goes
      have below' : l.written + 1 < n := by
        by_contra reached
        exact goes ⟨fits,by omega⟩
      rw [ih,place_written]
      · omega
      · rw [place_pair_count,place_written,if_neg fits,counted]
      · rw [place_written]
        exact below'
      · rw [place_written]
        exact fun p member => encodable p (List.mem_cons_of_mem _ member)
      · rw [place_written,place,if_neg fits]
        simp only
        omega

private theorem given_behind (pairs : List Pair) (behind : n ≤ l.written) (below : l.pair_count < n) :
    l.given sendbuf_size n pairs = n ↔ (pairs = [] ∧ l.written = n) ∨
      ∃ more bad rest, pairs = more ++ bad :: rest ∧ (∀ pair ∈ more, Format.Encodable pair) ∧ ¬ Format.Encodable bad ∧
        (l.placeAll sendbuf_size more).pair_count < n ∧
        if (l.placeAll sendbuf_size more).Bursts bad then l.written + more.length = n
        else (l.placeAll sendbuf_size more).closed = n := by
  induction pairs generalizing l with
  | nil =>
    rw [given]
    constructor
    · exact fun same => .inl ⟨rfl,same⟩
    · rintro (⟨_,same⟩ | ⟨more,bad,rest,split,_⟩)
      · exact same
      · cases more <;> cases split
  | cons pair rest ih =>
    rw [given]
    by_cases encodable : Format.Encodable pair
    case neg =>
      rw [if_neg encodable]
      constructor
      · intro same
        refine .inr ⟨[],pair,rest,rfl,fun _ member => absurd member List.not_mem_nil,encodable,below,?_⟩
        split at same
        · rename_i bursts
          exact (if_pos bursts).symm ▸ same
        · rename_i bursts
          exact (if_neg bursts).symm ▸ same
      · rintro (⟨split,_⟩ | ⟨more,bad,rest',split,all,_,_,same⟩)
        · cases split
        cases more with
        | nil =>
          cases split
          by_cases bursts : l.Bursts pair
          · rw [if_pos bursts]
            exact (if_pos bursts).mp same
          · rw [if_neg bursts]
            exact (if_neg bursts).mp same
        | cons p more =>
          cases split
          exact absurd (all pair List.mem_cons_self) encodable
    rw [if_pos encodable]
    by_cases last : ¬ l.Overflows pair ∧ n ≤ l.pair_count + 1
    · rw [if_pos last]
      constructor
      · intro same
        omega
      · rintro (⟨split,_⟩ | ⟨more,bad,rest',split,_,unencodable,reached,_⟩)
        · cases split
        cases more with
        | nil =>
          cases split
          exact absurd encodable unencodable
        | cons p more =>
          cases split
          have counted := le_placeAll sendbuf_size more (l := l.place sendbuf_size pair)
          rw [place_pair_count,if_neg last.1] at counted
          exact absurd (last.2.trans counted) (Nat.not_le_of_lt reached)
    · have below' : (l.place sendbuf_size pair).pair_count < n := by
        rw [place_pair_count]
        split
        · exact below
        · rename_i fits
          exact Nat.lt_of_not_le fun reached => last ⟨fits,reached⟩
      rw [if_neg last,ih (by rw [place_written]; omega) below',place_written]
      constructor
      · rintro (⟨_,same⟩ | ⟨more,bad,rest',rfl,all,unencodable,reached,same⟩)
        · omega
        refine .inr ⟨pair :: more,bad,rest',rfl,?_,unencodable,reached,?_⟩
        · intro p member
          rcases List.mem_cons.mp member with rfl | later
          · exact encodable
          · exact all p later
        · rw [List.length_cons,Nat.add_comm more.length,← Nat.add_assoc]
          exact same
      · rintro (⟨split,_⟩ | ⟨more,bad,rest',split,all,unencodable,reached,same⟩)
        · cases split
        cases more with
        | nil =>
          cases split
          exact absurd encodable unencodable
        | cons p more =>
          cases split
          rw [List.length_cons,Nat.add_comm more.length,← Nat.add_assoc] at same
          exact .inr ⟨more,bad,rest',rfl,fun q member => all q (List.mem_cons_of_mem _ member),unencodable,
            reached,same⟩

private theorem given_le (pairs : List Pair) (closed : l.closed ≤ l.written) :
    l.given sendbuf_size n pairs ≤ l.written + pairs.length := by
  induction pairs generalizing l with
  | nil => exact Nat.le_refl _
  | cons pair rest ih =>
    rw [given,List.length_cons]
    split
    · split
      · omega
      · have later := ih (l := l.place sendbuf_size pair)
          (by rw [place_written]; exact (place_closed sendbuf_size closed).trans (Nat.le_succ _))
        rw [place_written] at later
        omega
    · split <;> omega

end Fill

private theorem interrupted_iff (sendbuf_size n : Nat) (pairs : List Pair) (long : n < pairs.length)
    (encodable : ∀ pair ∈ pairs.take n, Format.Encodable pair)
    (below : ((Fill.start sendbuf_size).placeAll sendbuf_size (pairs.take n)).pair_count < n) :
    (Fill.start sendbuf_size).given sendbuf_size n pairs = n ↔ Interrupted sendbuf_size n pairs := by
  have first : (pairs.take n).length = n := List.length_take_of_le (Nat.le_of_lt long)
  have written : ((Fill.start sendbuf_size).placeAll sendbuf_size (pairs.take n)).written = n :=
    (Fill.placeAll_written sendbuf_size _).trans ((Nat.zero_add _).trans first)
  have more_pairs : pairs.drop n ≠ [] := List.ne_nil_of_length_pos (by rw [List.length_drop]; omega)
  have parts := Fill.given_append sendbuf_size n (pairs.take n) (pairs.drop n) encodable below
  rw [List.take_append_drop] at parts
  rw [parts,Fill.given_behind sendbuf_size n _ (Nat.le_of_eq written.symm) below,written]
  unfold Interrupted
  simp only [Fill.placeAll,List.foldl_append,Nat.add_eq_left,List.length_eq_zero_iff]
  constructor
  · rintro (⟨ended,_⟩ | interrupted)
    · exact absurd ended more_pairs
    · exact interrupted
  · exact .inr

private theorem given_iff (sendbuf_size n : Nat) (some_ : 1 ≤ n) (pairs : List Pair) :
    (Fill.start sendbuf_size).given sendbuf_size n pairs = min n pairs.length ↔ WithinLimit sendbuf_size n pairs := by
  have start : (Fill.start sendbuf_size).written = 0 := rfl
  constructor
  · intro whole
    have encodable : ∀ pair ∈ pairs.take n, Format.Encodable pair :=
      Fill.encodable_of_given sendbuf_size n pairs (Nat.le_refl 0) (Nat.le_refl 0)
        (whole.trans (by rw [start,Nat.zero_add]))
    refine ⟨encodable,?_⟩
    rcases Nat.lt_or_ge n pairs.length with long | short
    case inr => exact .inl short
    rcases Nat.lt_or_ge sendbuf_size (16 + (frames (pairs.take n)).length) with full | room
    case inr => exact .inr (.inl room)
    have first : (pairs.take n).length = n := List.length_take_of_le (Nat.le_of_lt long)
    have counted := Fill.placeAll_lt sendbuf_size (pairs.take n) (l := Fill.start sendbuf_size) full
      (List.ne_nil_of_length_pos (by omega))
    rw [first,Fill.start,Nat.zero_add] at counted
    rw [Nat.min_eq_left (Nat.le_of_lt long)] at whole
    exact .inr (.inr ((interrupted_iff sendbuf_size n pairs long encodable counted).mp whole))
  · rintro ⟨encodable,room⟩
    rcases Nat.lt_or_ge n pairs.length with long | short
    case inr =>
      rw [List.take_of_length_le short] at encodable
      rw [Fill.given_of_short sendbuf_size n pairs encodable (Nat.le_refl 0) (by rw [start]; omega),start]
      omega
    rcases room with short | room | interrupted
    · omega
    · rw [Fill.given_of_room sendbuf_size n (l := Fill.start sendbuf_size) pairs rfl some_ encodable room,start,Nat.zero_add]
    · rw [Nat.min_eq_left (Nat.le_of_lt long)]
      refine (interrupted_iff sendbuf_size n pairs long encodable ?_).mpr interrupted
      obtain ⟨more,_,_,_,_,_,reached,_⟩ := interrupted
      rw [Fill.placeAll,List.foldl_append] at reached
      exact (Fill.le_placeAll sendbuf_size more).trans_lt reached

private theorem encodable_given (sendbuf_size n : Nat) (pairs : List Pair) {l : Fill} (done : List Pair)
    (written : l.written = done.length) (closed : l.closed ≤ l.written) (before : ∀ pair ∈ done, Format.Encodable pair) :
    ∀ pair ∈ (done ++ pairs).take (l.given sendbuf_size n pairs), Format.Encodable pair := by
  induction pairs generalizing l done with
  | nil =>
    intro pair member
    rw [List.append_nil] at member
    exact before pair (List.mem_of_mem_take member)
  | cons first rest ih =>
    intro pair member
    rw [Fill.given] at member
    by_cases encodable : Format.Encodable first
    case neg =>
      apply before
      have short : (if l.Bursts first then l.written else l.closed) ≤ done.length := by split <;> omega
      rw [if_neg encodable,List.take_append_of_le_length short] at member
      exact List.mem_of_mem_take member
    have within : ∀ p ∈ done ++ [first], Format.Encodable p := by
      intro p found
      rcases List.mem_append.mp found with old | new
      · exact before p old
      · exact List.mem_singleton.mp new ▸ encodable
    rw [if_pos encodable,List.append_cons] at member
    split at member
    · have short : l.written + 1 ≤ (done ++ [first]).length := by
        rw [List.length_append,List.length_singleton]
        omega
      rw [List.take_append_of_le_length short] at member
      exact within pair (List.mem_of_mem_take member)
    · apply ih _ _ _ within pair member
      · rw [Fill.place_written,List.length_append,List.length_singleton,written]
      · rw [Fill.place_written]
        exact (Fill.place_closed sendbuf_size closed).trans (Nat.le_succ _)

theorem decodes_given (sendbuf_size n : Nat) (room : 16 ≤ sendbuf_size) (pairs : List Pair)
    (nonempty : ∀ pair ∈ pairs, pair.1 ≠ []) {w : Writer} (size : w.1 = sendbuf_size) (empty : Holds w []) :
    DecodesTo (encode sendbuf_size (some n) none pairs ⟨w,0⟩).1
      (pairs.take ((Fill.start sendbuf_size).given sendbuf_size n pairs)) := by
  have blank : Filled ⟨w,0⟩ (Fill.start sendbuf_size) [] := ⟨empty,size,rfl,rfl,rfl,Nat.le_refl 0⟩
  obtain ⟨groups,encoded,joined⟩ := blank.encode sendbuf_size n room pairs nonempty
  rw [List.take_nil,List.nil_append,List.nil_append] at joined
  have encodable := encodable_given sendbuf_size n pairs (l := Fill.start sendbuf_size) [] rfl (Nat.le_refl 0)
    (fun _ member => absurd member List.not_mem_nil)
  rw [List.nil_append,← joined] at encodable
  intro fuel enough
  rw [encoded,← joined,decode_batches groups encodable fuel (joined ▸ enough)]

theorem DecodesTo.unique {batches : List (Option Bytes)} {first second : List Pair}
    (here : DecodesTo batches first) (there : DecodesTo batches second) : first = second := by
  have one := here (first.length + second.length + 1) (by omega)
  have two := there (first.length + second.length + 1) (by omega)
  exact congrArg Prod.fst (one.symm.trans two)

private theorem limited_iff (configured sendbuf_size : Int) (size : Nat)
    (used : (if sendbuf_size ≤ 0 then configured else sendbuf_size) = size) (room : 16 ≤ size) (n : Nat)
    (some_ : 1 ≤ n) (pairs : List Pair) (nonempty : ∀ pair ∈ pairs, pair.1 ≠ []) :
    DecodesTo (pair_to_bin_batch configured ⟨pairs,none⟩ (some n) sendbuf_size).1 (pairs.take n) ↔
      WithinLimit size n pairs := by
  obtain ⟨w,committed,length,_,empty⟩ := commit_ok size none (by omega)
  have shape : (pair_to_bin_batch configured ⟨pairs,none⟩ (some n) sendbuf_size).1 =
      (encode size (some n) none pairs ⟨w,0⟩).1 := by
    simp only [pair_to_bin_batch,used,committed]
  have given := decodes_given size n room pairs nonempty (Int.natCast_inj.mp length) empty
  rw [shape,← given_iff size n some_]
  constructor
  · intro decoded
    have same := congrArg List.length (given.unique decoded)
    have bound := Fill.given_le size n (l := Fill.start size) pairs (Nat.le_refl 0)
    have start : (Fill.start size).written = 0 := rfl
    rw [List.length_take,List.length_take] at same
    omega
  · intro whole
    rw [whole,List.take_eq_take_iff.mpr (by omega : min (min n pairs.length) pairs.length = min n pairs.length)] at given
    exact given

/-- The batches carry the first `n` pairs, and a partition answers with no others, when
these have frames and there are no more or they fit into the first buffer (or the input ends
by accident right behind them); otherwise they do not. -/
theorem bin_batch_limit (configured sendbuf_size : Int) (pairs : List Pair)
    (nonempty : ∀ pair ∈ pairs, pair.1 ≠ []) (n : Nat) (some_ : 1 ≤ n) (room : 20 ≤ sendbuf_size) :
    (DecodesTo (pair_to_bin_batch configured ⟨pairs,none⟩ (some n) sendbuf_size).1 (pairs.take n) ↔
      WithinLimit sendbuf_size.toNat n pairs) ∧
    (20 ≤ configured → (DecodesTo (GetAll.run configured pairs n).1 (pairs.take n) ↔
      WithinLimit configured.toNat n pairs)) := by
  constructor
  · exact limited_iff configured sendbuf_size _ (by rw [if_neg (by omega)]; omega) (by omega) n some_ pairs nonempty
  · intro wide
    have limited : ¬ (n : Int) < 0 := by omega
    rw [GetAll.run,if_neg limited]
    exact limited_iff configured (-1) _ (by rw [if_pos (by omega)]; omega) (by omega) n some_ pairs nonempty

/-- Two of three pairs, all in one buffer. -/
theorem bin_batch_limit_kept :
    DecodesTo (pair_to_bin_batch 0 ⟨[([1],[2,3]),([4],[]),([5],[6])],none⟩ (some 2) 64).1
      [([1],[2,3]),([4],[])] := by
  refine (bin_batch_limit 0 64 [([1],[2,3]),([4],[]),([5],[6])] (by decide) 2 (by decide) (by decide)).1.mpr ?_
  exact ⟨by decide,.inr (.inl (by decide))⟩

/-- The first pair overflows a buffer of twenty bytes and is not counted: two pairs are given
away where the limit is one. -/
theorem limit_exceeded :
    DecodesTo (pair_to_bin_batch 0 ⟨[([1],[]),([2],[])],none⟩ (some 1) 20).1 [([1],[]),([2],[])] ∧
      ¬ DecodesTo (pair_to_bin_batch 0 ⟨[([1],[]),([2],[])],none⟩ (some 1) 20).1 ([([1],[]),([2],[])].take 1) := by
  obtain ⟨w,committed,length,_,empty⟩ := commit_ok (20 : Nat) none (by decide)
  have shape : (pair_to_bin_batch 0 ⟨[([1],[]),([2],[])],none⟩ (some 1) 20).1 =
      (encode (20 : Nat) (some (1 : Nat)) none [([1],[]),([2],[])] ⟨w,0⟩).1 := by
    have used : (if (20 : Int) ≤ 0 then 0 else 20) = ((20 : Nat) : Int) := rfl
    simp only [pair_to_bin_batch,used,committed]
    rfl
  have both : DecodesTo (pair_to_bin_batch 0 ⟨[([1],[]),([2],[])],none⟩ (some 1) 20).1 [([1],[]),([2],[])] := by
    rw [shape]
    exact decodes_given 20 1 (by decide) _ (by decide) (Int.natCast_inj.mp length) empty
  exact ⟨both,fun one => by cases both.unique one⟩

end Eggroll.BinBatch
