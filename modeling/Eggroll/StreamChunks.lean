import Eggroll.Library.Chunks
import Eggroll.Library.System
import Eggroll.PushRetries

/-! `_generate_batch_streams` as the lazy code runs it: the outer generator and the streams it
yields share one iterator, a look-ahead of one batch and the mark of the last stream. The push
loop drains each stream (`list(batch_stream)`) before it asks for the next. -/
namespace Eggroll.BatchStream.Chunking
open Library

universe u

variable {α : Type u}

/-- What the two generators share: the iterator, the variable `peek` (none until it is bound)
and the helper's mark and number of streams. -/
structure Closure (α : Type u) where
  batches : List α
  peek : Option α
  finish_partition : Bool
  stream_seq : ℕ
deriving Repr, DecidableEq

/-- A generator made by `chunk_batch_stream`: not begun, at the `yield` of its loop with
`turns` further turns behind this one, at the `yield` of its `finally`, or ended. -/
inductive Chunk (α : Type u)
  | fresh
  | looping (turns : ℕ) (next_batch : α)
  | final
  | exhausted
deriving Repr, DecidableEq

/-- What `next` of a stream does; `raised` is the NameError of a `peek` that is not bound. -/
inductive Resumed (α : Type u)
  | yielded (batch : α) (closure : Closure α) (chunk : Chunk α)
  | stopped
  | raised

namespace Closure

/-- The body of a stream from the head of its loop with `turns` turns to go, up to the next
`yield`. -/
def chunk_batch_stream (c : Closure α) : ℕ → α → Resumed α
  | turns + 1, cur_batch =>
    match c.batches with
    | next_batch :: rest => .yielded cur_batch { c with batches := rest } (.looping turns next_batch)
    | [] => .yielded cur_batch { c with finish_partition := true } .final
  | 0, cur_batch =>
    match c.batches with
    | peek :: rest => .yielded cur_batch { c with batches := rest, peek := some peek } .final
    | [] => .yielded cur_batch { c with finish_partition := true } .final

/-- The first lines of `_generate_batch_streams`. -/
def first_peek (c : Closure α) : Closure α :=
  match c.batches with
  | peek :: rest => { c with batches := rest, peek := some peek }
  | [] => { c with finish_partition := true }

end Closure

/-- `next(batch_stream)`. -/
def Chunk.next (batches_per_stream : ℤ) (c : Closure α) : Chunk α → Resumed α
  | .fresh =>
    match c.peek with
    | some cur_batch => c.chunk_batch_stream (batches_per_stream - 1).toNat cur_batch
    | none => .raised
  | .looping turns next_batch => c.chunk_batch_stream turns next_batch
  | .final => .stopped
  | .exhausted => .stopped

/-- The generator `_generate_batch_streams`: not begun, at its `yield`, or ended. -/
inductive Streams
  | fresh
  | yielding
  | exhausted
deriving Repr, DecidableEq

/-- The push loop: the stream it is draining with what `list` has of it, and the streams it
has drained, each with the mark as it stood then. -/
structure Push (α : Type u) where
  closure : Closure α
  generator : Streams
  batch_stream : Option (Chunk α)
  batch_stream_data : List α
  streams : List (List α × Bool)
  raised : Bool
deriving Repr, DecidableEq

namespace Push

def start (batches : List α) : Push α := ⟨⟨batches,none,false,0⟩,.fresh,none,[],[],false⟩

/-- `while not self._finish_partition`. -/
def request (s : Push α) (c : Closure α) : Push α :=
  if c.finish_partition then { s with closure := c, generator := .exhausted }
  else { s with
    closure := { c with stream_seq := c.stream_seq + 1 }
    generator := .yielding
    batch_stream := some .fresh }

def receive (s : Push α) : Resumed α → Push α
  | .yielded batch c chunk =>
    { s with
      closure := c
      batch_stream := some chunk
      batch_stream_data := s.batch_stream_data ++ [batch] }
  | .stopped =>
    { s with
      batch_stream := none
      batch_stream_data := []
      streams := s.streams ++ [(s.batch_stream_data,s.closure.finish_partition)] }
  | .raised => { s with batch_stream := none, raised := true }

/-- The next `next`: of the stream that is being drained, else of the generator. -/
def advance (batches_per_stream : ℤ) (s : Push α) : Option (Push α) :=
  if s.raised then none else
    match s.batch_stream with
    | some chunk => some (s.receive (chunk.next batches_per_stream s.closure))
    | none =>
      match s.generator with
      | .fresh => some (s.request s.closure.first_peek)
      | .yielding => some (s.request s.closure)
      | .exhausted => none

def drained (s : Push α) : List α := (s.streams.map Prod.fst).flatten ++ s.batch_stream_data

end Push

def pushing (batches_per_stream : ℤ) (batches : List α) : System (Push α) Unit where
  start s := s = Push.start batches
  step s _ := s.advance batches_per_stream

def unmarked (parts : List (List α)) : List (List α × Bool) := parts.map (fun part => (part,false))

@[simp] theorem unmarked_fst (parts : List (List α)) : (unmarked parts).map Prod.fst = parts := by
  simp [unmarked,Function.comp_def]

/-- Full streams lie behind, and their batches with those still to come are all batches. -/
structure Behind (n : ℕ) (all : List α) (parts : List (List α)) (ahead : List α) : Prop where
  filled : ∀ part ∈ parts, part.length = n
  split : parts.flatten ++ ahead = all

/-- The states of the loop: the batch under `peek` or in the hands of a stream comes before
those of the iterator, and a stream that has ended is full, unless the mark is set. -/
inductive Stage (n : ℕ) (all : List α) : Push α → Prop
  | unasked : Stage n all (Push.start all)
  | between (parts : List (List α)) (peek : α) (rest : List α) (seq : ℕ)
      (behind : Behind n all parts (peek :: rest)) :
      Stage n all ⟨⟨rest,some peek,false,seq⟩,.yielding,none,[],unmarked parts,false⟩
  | opened (parts : List (List α)) (peek : α) (rest : List α) (seq : ℕ)
      (behind : Behind n all parts (peek :: rest)) :
      Stage n all ⟨⟨rest,some peek,false,seq⟩,.yielding,some .fresh,[],unmarked parts,false⟩
  | looping (parts : List (List α)) (stream : List α) (peek : Option α) (next_batch : α) (rest : List α)
      (seq turns : ℕ) (behind : Behind n all parts (stream ++ next_batch :: rest))
      (size : stream.length + turns + 1 = n) :
      Stage n all ⟨⟨rest,peek,false,seq⟩,.yielding,some (.looping turns next_batch),stream,unmarked parts,false⟩
  | filled (parts : List (List α)) (stream : List α) (peek : α) (rest : List α) (seq : ℕ)
      (behind : Behind n all parts (stream ++ peek :: rest)) (size : stream.length = n) :
      Stage n all ⟨⟨rest,some peek,false,seq⟩,.yielding,some .final,stream,unmarked parts,false⟩
  | last (parts : List (List α)) (stream : List α) (peek : Option α) (seq : ℕ)
      (behind : Behind n all parts stream) (present : stream ≠ []) (fits : stream.length ≤ n) :
      Stage n all ⟨⟨[],peek,true,seq⟩,.yielding,some .final,stream,unmarked parts,false⟩
  | drained (parts : List (List α)) (peek : Option α) (seq : ℕ) (cut : Chunks n all parts) (more : parts ≠ []) :
      Stage n all ⟨⟨[],peek,true,seq⟩,.yielding,none,[],marked parts,false⟩
  | exhausted (parts : List (List α)) (peek : Option α) (seq : ℕ) (cut : Chunks n all parts) :
      Stage n all ⟨⟨[],peek,true,seq⟩,.exhausted,none,[],marked parts,false⟩

section
variable {n : ℕ} {all : List α}

theorem Behind.move {parts : List (List α)} {stream rest : List α} (behind : Behind n all parts (stream ++ rest))
    (size : stream.length = n) : Behind n all (parts ++ [stream]) rest := by
  constructor
  · intro part member
    rcases List.mem_append.mp member with before | last
    · exact behind.filled part before
    · rw [List.mem_singleton.mp last]
      exact size
  · simpa using behind.split

theorem Behind.take {parts : List (List α)} {stream rest : List α} {batch : α}
    (behind : Behind n all parts (stream ++ batch :: rest)) :
    Behind n all parts ((stream ++ [batch]) ++ rest) :=
  ⟨behind.filled,by simpa using behind.split⟩

theorem Stage.turn {parts : List (List α)} {stream : List α} {cur_batch : α} {rest : List α} {turns : ℕ}
    (peek : Option α) (seq : ℕ) (chunk : Option (Chunk α))
    (behind : Behind n all parts (stream ++ cur_batch :: rest)) (size : stream.length + turns + 1 = n) :
    Stage n all ((⟨⟨rest,peek,false,seq⟩,.yielding,chunk,stream,unmarked parts,false⟩ : Push α).receive
      (Closure.chunk_batch_stream ⟨rest,peek,false,seq⟩ turns cur_batch)) := by
  have taken := behind.take
  cases rest with
  | nil =>
    have given : Behind n all parts (stream ++ [cur_batch]) := by simpa using taken
    have fits : (stream ++ [cur_batch]).length ≤ n := by simp; omega
    cases turns with
    | zero => exact .last parts _ peek seq given (by simp) fits
    | succ turns => exact .last parts _ peek seq given (by simp) fits
  | cons next_batch rest =>
    cases turns with
    | zero => exact .filled parts _ next_batch rest seq taken (by simpa using size)
    | succ turns =>
      apply Stage.looping parts _ peek next_batch rest seq turns taken
      simp only [List.length_append,List.length_singleton]
      omega

theorem Stage.step {batches_per_stream : ℤ} {s t : Push α} (positive : 1 ≤ batches_per_stream)
    (stage : Stage batches_per_stream.toNat all s) (stepped : s.advance batches_per_stream = some t) :
    Stage batches_per_stream.toNat all t := by
  cases stage with
  | unasked =>
    obtain rfl := Option.some.inj stepped
    cases all with
    | nil => exact .exhausted [] none 0 (.nil _)
    | cons peek rest => exact .opened [] peek rest 1 ⟨by simp,rfl⟩
  | between parts peek rest seq behind =>
    obtain rfl := Option.some.inj stepped
    exact .opened parts peek rest (seq + 1) behind
  | opened parts peek rest seq behind =>
    obtain rfl := Option.some.inj stepped
    apply Stage.turn (some peek) seq _ behind
    simp only [List.length_nil]
    omega
  | looping parts stream peek next_batch rest seq turns behind size =>
    obtain rfl := Option.some.inj stepped
    exact Stage.turn peek seq _ behind size
  | filled parts stream peek rest seq behind size =>
    obtain rfl := Option.some.inj stepped
    have next := Stage.between (parts ++ [stream]) peek rest seq (behind.move size)
    simpa [unmarked,Chunk.next,Push.receive] using next
  | last parts stream peek seq behind present fits =>
    obtain rfl := Option.some.inj stepped
    have cut := Chunks.close behind.filled present fits behind.split
    have next := Stage.drained (parts ++ [stream]) peek seq cut (by simp)
    rw [marked_close] at next
    exact next
  | drained parts peek seq cut more =>
    obtain rfl := Option.some.inj stepped
    exact .exhausted parts peek seq cut
  | exhausted parts peek seq cut => cases stepped

/-- How many more times `next` is called, from above. -/
def Push.left (s : Push α) : ℕ :=
  6 * s.closure.batches.length +
    match s.generator, s.batch_stream with
    | .exhausted, _ => 0
    | .fresh, _ => 1
    | .yielding, none => if s.closure.finish_partition then 1 else 4
    | .yielding, some .final => if s.closure.finish_partition then 2 else 5
    | .yielding, some _ => 3

theorem Stage.lowers {batches_per_stream : ℤ} {s t : Push α}
    (stage : Stage batches_per_stream.toNat all s) (stepped : s.advance batches_per_stream = some t) :
    t.left < s.left := by
  have turned (parts : List (List α)) (stream rest : List α) (peek : Option α) (seq turns : ℕ) (cur_batch : α)
      (chunk : Option (Chunk α)) :
      ((⟨⟨rest,peek,false,seq⟩,.yielding,chunk,stream,unmarked parts,false⟩ : Push α).receive
        (Closure.chunk_batch_stream ⟨rest,peek,false,seq⟩ turns cur_batch)).left < 6 * rest.length + 3 := by
    cases rest with
    | nil => cases turns <;> simp [Closure.chunk_batch_stream,Push.receive,Push.left]
    | cons next_batch rest =>
      cases turns with
      | zero => simp [Closure.chunk_batch_stream,Push.receive,Push.left]; omega
      | succ turns => simp [Closure.chunk_batch_stream,Push.receive,Push.left]
  cases stage with
  | unasked =>
    obtain rfl := Option.some.inj stepped
    cases all <;> simp [Push.start,Push.request,Closure.first_peek,Push.left]
    omega
  | between parts peek rest seq behind =>
    obtain rfl := Option.some.inj stepped
    simp [Push.request,Push.left]
  | opened parts peek rest seq behind =>
    obtain rfl := Option.some.inj stepped
    exact turned parts [] rest (some peek) seq _ peek _
  | looping parts stream peek next_batch rest seq turns behind size =>
    obtain rfl := Option.some.inj stepped
    exact turned parts stream rest peek seq turns next_batch _
  | filled parts stream peek rest seq behind size =>
    obtain rfl := Option.some.inj stepped
    simp [Chunk.next,Push.receive,Push.left]
  | last parts stream peek seq behind present fits =>
    obtain rfl := Option.some.inj stepped
    simp [Chunk.next,Push.receive,Push.left]
  | drained parts peek seq cut more =>
    obtain rfl := Option.some.inj stepped
    simp [Push.request,Push.left]
  | exhausted parts peek seq cut => cases stepped

theorem Behind.unfinished {parts : List (List α)} {stream rest : List α} {batch : α}
    (behind : Behind n all parts (stream ++ batch :: rest)) : parts.flatten ++ stream ≠ all := by
  intro whole
  have sizes := congrArg List.length (whole.trans behind.split.symm)
  simp at sizes

theorem Stage.mark {s : Push α} (stage : Stage n all s) :
    s.closure.finish_partition = true ↔ s.generator ≠ .fresh ∧ s.drained = all := by
  cases stage with
  | unasked => simp [Push.start]
  | between parts peek rest seq behind =>
    have unfinished : parts.flatten ++ [] ≠ all := Behind.unfinished behind
    simpa [Push.drained] using unfinished
  | opened parts peek rest seq behind =>
    have unfinished : parts.flatten ++ [] ≠ all := Behind.unfinished behind
    simpa [Push.drained] using unfinished
  | looping parts stream peek next_batch rest seq turns behind size =>
    simpa [Push.drained] using behind.unfinished
  | filled parts stream peek rest seq behind size => simpa [Push.drained] using behind.unfinished
  | last parts stream peek seq behind present fits => simpa [Push.drained] using behind.split
  | drained parts peek seq cut more => simpa [Push.drained] using cut.whole
  | exhausted parts peek seq cut => simpa [Push.drained] using cut.whole

private theorem Stage.last_open {s : Push α} (stage : Stage n all s) (now : s.closure.finish_partition = true)
    (draining : s.batch_stream.isSome = true) :
    Chunks n all (s.streams.map Prod.fst ++ [s.batch_stream_data]) := by
  cases stage with
  | last parts stream peek seq behind present fits =>
    rw [unmarked_fst]
    exact .close behind.filled present fits behind.split
  | unasked => cases now
  | between => cases now
  | opened => cases now
  | looping => cases now
  | filled => cases now
  | drained => cases draining
  | exhausted => cases draining

private theorem turn_open (s : Push α) (c : Closure α) (turns : ℕ) (cur_batch : α) :
    (s.receive (c.chunk_batch_stream turns cur_batch)).batch_stream.isSome = true := by
  obtain ⟨batches,peek,finish,seq⟩ := c
  cases turns <;> cases batches <;> rfl

private theorem Stage.marks_last {batches_per_stream : ℤ} {s t : Push α} (positive : 1 ≤ batches_per_stream)
    (stage : Stage batches_per_stream.toNat all s) (stepped : s.advance batches_per_stream = some t)
    (unset : s.closure.finish_partition = false) (now : t.closure.finish_partition = true) :
    (all = [] ∧ s.generator = .fresh ∧ t.generator = .exhausted) ∨
      (t.batch_stream.isSome = true ∧
        Chunks batches_per_stream.toNat all (t.streams.map Prod.fst ++ [t.batch_stream_data])) := by
  have last := (stage.step positive stepped).last_open now
  cases stage with
  | unasked =>
    obtain rfl := Option.some.inj stepped
    cases all with
    | nil => exact .inl ⟨rfl,rfl,rfl⟩
    | cons peek rest => cases now
  | between =>
    obtain rfl := Option.some.inj stepped
    cases now
  | opened parts peek rest seq behind =>
    obtain rfl := Option.some.inj stepped
    right
    constructor
    · apply turn_open
    · apply last
      apply turn_open
  | looping parts stream peek next_batch rest seq turns behind size =>
    obtain rfl := Option.some.inj stepped
    right
    constructor
    · apply turn_open
    · apply last
      apply turn_open
  | filled =>
    obtain rfl := Option.some.inj stepped
    cases now
  | last => cases unset
  | drained => cases unset
  | exhausted => cases unset

theorem Stage.ended {batches_per_stream : ℤ} {s : Push α} (stage : Stage n all s)
    (ended : s.advance batches_per_stream = none) :
    s.generator = .exhausted ∧ s.raised = false ∧ Chunks n all (s.streams.map Prod.fst) ∧
      s.streams = marked (s.streams.map Prod.fst) := by
  cases stage with
  | exhausted parts peek seq cut => simpa using cut
  | unasked => cases ended
  | between => cases ended
  | opened => cases ended
  | looping => cases ended
  | filled => cases ended
  | last => cases ended
  | drained => cases ended

end

section
variable {batches_per_stream : ℤ} {batches : List α}

private theorem pushing_stage (positive : 1 ≤ batches_per_stream) {s : Push α}
    (reached : (pushing batches_per_stream batches).Reachable s) : Stage batches_per_stream.toNat batches s := by
  apply System.Reachable.invariant _ _ reached
  · intro s started
    obtain rfl : s = Push.start batches := started
    exact .unasked
  · intro s label t stage stepped
    exact stage.step positive stepped

theorem pushing_halts (positive : 1 ≤ batches_per_stream) {s : Push α}
    (reached : (pushing batches_per_stream batches).Reachable s) :
    ∃ labels final, (pushing batches_per_stream batches).Run s labels final ∧
      final.advance batches_per_stream = none := by
  obtain ⟨labels,final,run,still⟩ := System.halts (S := pushing batches_per_stream batches) Push.left
    (fun s label t stage stepped => Stage.step positive stage stepped)
    (fun s label t stage stepped => Stage.lowers stage stepped) (pushing_stage positive reached)
  exact ⟨labels,final,run,still ()⟩

end

/-- The push loop comes to its end from every state, no `next` raises, and the streams it has
then drained partition the batches. The mark stands exactly from the last batch on: it is set
while the last stream is drained, or by the first `next` when there are no batches. -/
theorem batch_streams_partition (batches_per_stream : ℤ) (positive : 1 ≤ batches_per_stream) (batches : List α)
    {s : Push α} (reached : (pushing batches_per_stream batches).Reachable s) :
    (∃ labels final, (pushing batches_per_stream batches).Run s labels final ∧
      final.advance batches_per_stream = none) ∧
    (s.advance batches_per_stream = none →
      s.generator = .exhausted ∧ s.raised = false ∧
        Chunks batches_per_stream.toNat batches (s.streams.map Prod.fst) ∧
        s.streams = marked (s.streams.map Prod.fst)) ∧
    (s.closure.finish_partition = true ↔ s.generator ≠ .fresh ∧ s.drained = batches) ∧
    ∀ t, s.advance batches_per_stream = some t →
      s.closure.finish_partition = false → t.closure.finish_partition = true →
      (batches = [] ∧ s.generator = .fresh ∧ t.generator = .exhausted) ∨
        (t.batch_stream.isSome = true ∧
          Chunks batches_per_stream.toNat batches (t.streams.map Prod.fst ++ [t.batch_stream_data])) := by
  have stage := pushing_stage positive reached
  exact ⟨pushing_halts positive reached,stage.ended,stage.mark,
    fun t stepped unset now => stage.marks_last positive stepped unset now⟩

def drained_five : Push ℕ :=
  ⟨⟨[],some 5,true,3⟩,.exhausted,none,[],[([1,2],false),([3,4],false),([5],true)],false⟩

theorem batch_streams_partition_five : Chunks 2 [1,2,3,4,5] [[1,2],[3,4],[5]] := by
  have ran : (pushing 2 [1,2,3,4,5]).Run (.start [1,2,3,4,5]) (List.replicate 12 ()) drained_five := by rfl
  exact ((batch_streams_partition 2 (by decide) [1,2,3,4,5] ⟨_,_,rfl,ran⟩).2.1 rfl).2.2.1

example : ((pushing 3 []).exec (.start []) [()]).map Push.closure =
    some (⟨[],none,true,0⟩ : Closure ℕ) := by decide

private theorem chunk_batch_stream_sizes (more : ℕ) (cur_batch : Option Bytes) (rest : List (Option Bytes)) :
    (chunk_batch_stream more cur_batch rest).1.length ≤ more + 1 ∧
      ((chunk_batch_stream more cur_batch rest).2 = none ∨
        (chunk_batch_stream more cur_batch rest).1.length = more + 1) := by
  fun_induction chunk_batch_stream more cur_batch rest with
  | case1 more cur_batch next_batch rest later ih =>
    refine ⟨by simpa using ih.1,ih.2.imp id ?_⟩
    intro size
    simpa using size
  | case2 more cur_batch rest last =>
    refine ⟨by simp,?_⟩
    cases rest with
    | nil => exact .inl rfl
    | cons next_batch rest =>
      cases more with
      | zero => exact .inr rfl
      | succ more => exact absurd rfl (last more next_batch rest rfl)

private theorem generate_batch_streams_chunks {batches_per_stream : ℕ} (positive : 1 ≤ batches_per_stream) (fuel : ℕ)
    (upcoming : Upcoming) (enough : upcoming.batches.length ≤ fuel) :
    ∃ parts, _generate_batch_streams batches_per_stream fuel upcoming = marked parts ∧
      Chunks batches_per_stream upcoming.batches parts := by
  induction fuel generalizing upcoming with
  | zero =>
    cases upcoming with
    | none => exact ⟨[],rfl,.nil _⟩
    | some next => cases enough
  | succ fuel ih =>
    cases upcoming with
    | none => exact ⟨[],rfl,.nil _⟩
    | some next =>
      obtain ⟨peek,rest⟩ := next
      have whole := chunk_batch_stream_split (batches_per_stream - 1) peek rest
      have sizes := chunk_batch_stream_sizes (batches_per_stream - 1) peek rest
      rw [_generate_batch_streams]
      generalize chunk_batch_stream (batches_per_stream - 1) peek rest = chunk at whole sizes ⊢
      obtain ⟨stream,later⟩ := chunk
      obtain ⟨present,split⟩ := whole
      obtain ⟨fits,filled⟩ := sizes
      dsimp only at present split fits filled ⊢
      have taken := List.length_pos_iff.mpr present
      have total := congrArg List.length split
      rw [List.length_append] at total
      change (peek :: rest).length ≤ fuel + 1 at enough
      have fewer : later.batches.length ≤ fuel := by omega
      obtain ⟨parts,generated,cut⟩ := ih later fewer
      rw [generated]
      change ∃ parts, _ ∧ Chunks batches_per_stream (peek :: rest) parts
      rw [← split]
      cases later with
      | none =>
        obtain rfl := cut.empty
        have alone : Chunks batches_per_stream (stream ++ []) ([] ++ [stream]) :=
          .close (by simp) present (by omega) (by simp)
        exact ⟨[stream],rfl,alone⟩
      | some next =>
        have size : stream.length = batches_per_stream := by
          have full := filled.resolve_left (Option.some_ne_none next)
          omega
        have more : parts ≠ [] := by
          intro none
          have nothing := cut.whole
          rw [none] at nothing
          cases nothing
        exact ⟨stream :: parts,(marked_cons stream more).symm,.cons present size cut⟩

theorem pushing_streams {batches_per_stream : ℤ} (positive : 1 ≤ batches_per_stream) {batches : List (Option Bytes)}
    {s : Push (Option Bytes)} (reached : (pushing batches_per_stream batches).Reachable s)
    (ended : s.advance batches_per_stream = none) : s.streams = streams batches_per_stream.toNat batches := by
  obtain ⟨_,_,cut,marks⟩ := (pushing_stage positive reached).ended ended
  have enough : (Upcoming.of batches).batches.length ≤ batches.length := by rw [Upcoming.batches_of]
  have least : 1 ≤ batches_per_stream.toNat := by omega
  obtain ⟨parts,generated,whole⟩ := generate_batch_streams_chunks least batches.length (Upcoming.of batches) enough
  rw [Upcoming.batches_of] at whole
  rw [marks,cut.unique whole]
  exact generated.symm

end Eggroll.BatchStream.Chunking
