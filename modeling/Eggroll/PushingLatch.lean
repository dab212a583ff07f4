import Mathlib.Algebra.Order.BigOperators.Group.List
import Mathlib.Algebra.Order.Ring.Int
import Eggroll.Library.Threads

/-! The pushing latch of a roll site context (`_rollsite.py`, `_rollsite_impl_grpc.py` and
`CountDownLatch` of `_rollsite_context.py`). `push_bytes` and `push_rp` count it up for each
party; the push that they start in the background counts it down as its last statement. -/
namespace Eggroll.PushingLatch
open Library

/-- The exceptions, of class `Exception`, that the calls of a push meet. -/
abbrev Raised := String

/-- A push in the background: of an object whose generator gives some number of streams, or
of a roll pair. -/
inductive Task
  | _push_bytes (streams : ℕ)
  | _push_rollpair
deriving Repr, DecidableEq

/-- `get_rs_key` to `handle` are what a push does before its streams, for each of them and
in the except clause; `with_stores` raises when an egg's push of a partition has failed. -/
inductive Op
  | count_up
  | count_down
  | rs_header (dst_role dst_party_id : String)
  | run_thread (task : Task)
  | get_rs_key
  | count
  | set_up
  | next_stream
  | push (cur_retry : ℕ)
  | handle
  | with_stores
deriving Repr, DecidableEq

abbrev Ans : Op → Type := fun _ => Unit

abbrev Prog := Program Op Ans Raised Unit

/-- `push_max_retry`, and whether the logger is enabled for DEBUG. -/
structure Setting where
  push_max_retry : Int
  debug : Bool
deriving Repr, DecidableEq

open Program hiding call

def call (op : Op) : Prog := perform op

/-- A call of `push_bytes` or `push_rp` for a list of parties. -/
structure Request where
  task : Task
  parties : List (String × String)
deriving Repr, DecidableEq

def push (task : Task) : List (String × String) → Prog
  | [] => pure ()
  | (dst_role,dst_party_id) :: rest => do
    call .count_up
    call (.rs_header dst_role dst_party_id)
    call (.run_thread task)
    push task rest

def Request.program (request : Request) : Prog := push request.task request.parties

/-- The while loop: so many attempts left, the number of the next one and the exception of
the last one. -/
def attempts : ℕ → ℕ → Option Raised → Prog
  | 0, _, none => pure ()
  | 0, _, some exception => raise exception
  | left + 1, cur_retry, _ => .call (.push cur_retry) fun
    | .ok _ => pure ()
    | .error e => do
      call .handle
      attempts left (cur_retry + 1) (some e)

/-- The loop over the streams; the generator is asked once more than it has streams. -/
def pushStreams (setting : Setting) : ℕ → Prog
  | 0 => call .next_stream
  | streams + 1 => do
    call .next_stream
    attempts setting.push_max_retry.toNat 0 none
    pushStreams setting streams

def _push_bytes (setting : Setting) (streams : ℕ) : Prog := do
  call .get_rs_key
  call .set_up
  pushStreams setting streams
  call .count_down

/-- `rp.count()` is asked for the log. -/
def logged (setting : Setting) : Prog := if setting.debug then call .count else pure ()

def _push_rollpair (setting : Setting) : Prog := do
  call .get_rs_key
  logged setting
  call .set_up
  call .with_stores
  logged setting
  call .count_down

def Task.program (setting : Setting) : Task → Prog
  | _push_bytes streams => PushingLatch._push_bytes setting streams
  | _push_rollpair => PushingLatch._push_rollpair setting

def spawns (setting : Setting) : Op → List Prog
  | .run_thread task => [task.program setting]
  | _ => []

/-- The latch's count; any call but those of the latch may raise. -/
def serve : Service ℤ Op Ans Raised (Option Raised) := fun count op env =>
  match op, env with
  | .count_up, _ => some (count + 1,.ok ())
  | .count_down, _ => some (count - 1,.ok ())
  | _, none => some (count,.ok ())
  | _, some e => some (count,.error e)

abbrev Context := Threads ℤ Op Ans Raised Unit

def system (setting : Setting) : System Context (Threads.Act Request (Option Raised)) :=
  Threads.system (· = 0) Request.program (spawns setting) serve

/-- Every call and every background push has come to its end. -/
def AllEnded (p : Context) : Prop := ∀ thread ∈ p.threads, Threads.Ended thread

def Op.spare (setting : Setting) : Op → Bool
  | push cur_retry => (cur_retry : Int) + 1 < setting.push_max_retry
  | _ => false

def Op.ofLatch : Op → Bool
  | count_up | count_down => true
  | _ => false

/-- The step does not make a call raise, unless it is an attempt with another one to follow. -/
def unbroken (setting : Setting) (p : Context) : Threads.Act Request (Option Raised) → Bool
  | .invoke _ => true
  | .step i env =>
    match env, p.threads[i]? with
    | some _, some (.call op _) => op.ofLatch || op.spare setting
    | _, _ => true

/-- What the thread has yet to count down: a call for the party it has come to, until the
push is started, and the push from then on. -/
def Op.owed : Op → ℤ
  | count_up => 1
  | count_down | run_thread _ => -1
  | _ => 0

/-- The thread will raise and never count down. -/
def Doomed : Prog → Prop
  | .ended (.ok _) => False
  | .ended (.error _) => True
  | .call op next => op.owed = 0 ∧ ∀ answer, Doomed (next answer)

/-- The thread counts down what it owes unless a call breaks it off; it owes one then. -/
def Sound (setting : Setting) : Prog → ℤ → Prop
  | .ended (.ok _), d => d = 0
  | .ended (.error _), _ => False
  | .call op next, d => Sound setting (next (.ok ())) (d + op.owed) ∧
      (op.ofLatch = false → ∀ e, if op.spare setting then Sound setting (next (.error e)) d
        else d = 1 ∧ Doomed (next (.error e)))

section
variable {setting : Setting}

private theorem sound_call {op : Op} {f : Unit → Prog} {d : ℤ} (spare : op.spare setting = false)
    (after : Sound setting (f ()) (d + op.owed)) (broken : op.ofLatch = false → d = 1) :
    Sound setting (call op >>= f) d :=
  ⟨after,fun other e => by rw [spare]; exact ⟨broken other,trivial⟩⟩

private theorem doomed_handle (e : Raised) (f : Unit → Prog) : Doomed ((call .handle >>= fun _ => raise e) >>= f) := by
  refine ⟨rfl,fun answer => ?_⟩
  cases answer <;> trivial

private theorem attempts_sound {f : Unit → Prog} (after : Sound setting (f ()) 1) (left cur_retry : ℕ)
    (exception : Option Raised) (total : cur_retry + left = setting.push_max_retry.toNat)
    (more : 0 < left ∨ exception = none) : Sound setting (attempts left cur_retry exception >>= f) 1 := by
  induction left generalizing cur_retry exception with
  | zero =>
    obtain rfl := more.resolve_left (Nat.lt_irrefl 0)
    exact after
  | succ left ih =>
    refine ⟨after,fun _ e => ?_⟩
    by_cases last : left = 0
    · subst last
      have spare : Op.spare setting (.push cur_retry) = false := by
        simp only [Op.spare,decide_eq_false_iff_not]
        omega
      rw [spare]
      exact ⟨rfl,doomed_handle e f⟩
    · have spare : Op.spare setting (.push cur_retry) = true := by
        simp only [Op.spare,decide_eq_true_eq]
        omega
      rw [if_pos spare]
      change Sound setting ((call .handle >>= fun _ => attempts left (cur_retry + 1) (some e)) >>= f) 1
      rw [bind_assoc]
      exact sound_call rfl (ih (cur_retry + 1) (some e) (by omega) (.inl (by omega))) fun _ => rfl

private theorem pushStreams_sound {f : Unit → Prog} (after : Sound setting (f ()) 1) (streams : ℕ) :
    Sound setting (pushStreams setting streams >>= f) 1 := by
  induction streams with
  | zero => exact sound_call rfl after fun _ => rfl
  | succ streams ih =>
    rw [pushStreams,bind_assoc]
    refine sound_call rfl ?_ fun _ => rfl
    rw [bind_assoc]
    exact attempts_sound ih _ 0 none (Nat.zero_add _) (.inr rfl)

private theorem count_down_sound : Sound setting (call .count_down) 1 :=
  ⟨rfl,fun other => by cases other⟩

private theorem logged_sound {f : Unit → Prog} (after : Sound setting (f ()) 1) : Sound setting (logged setting >>= f) 1 := by
  unfold logged
  split
  · exact sound_call rfl after fun _ => rfl
  · exact after

private theorem task_sound (task : Task) : Sound setting (task.program setting) 1 := by
  cases task with
  | _push_bytes streams =>
    refine sound_call rfl (sound_call rfl ?_ fun _ => rfl) fun _ => rfl
    exact pushStreams_sound count_down_sound streams
  | _push_rollpair =>
    refine sound_call rfl (logged_sound ?_) fun _ => rfl
    refine sound_call rfl (sound_call rfl (logged_sound count_down_sound) fun _ => rfl) fun _ => rfl

private theorem push_sound (task : Task) (parties : List (String × String)) : Sound setting (push task parties) 0 := by
  induction parties with
  | nil => rfl
  | cons party rest ih =>
    refine sound_call rfl ?_ fun other => by cases other
    exact sound_call rfl (sound_call rfl ih fun _ => rfl) fun _ => rfl

end

theorem serve_cases {count t : ℤ} {op : Op} {env : Option Raised} {answer : Except Raised Unit}
    (served : serve count op env = some (t,answer)) :
    answer = .ok () ∧ t = count + (if op.ofLatch then op.owed else 0) ∨
      op.ofLatch = false ∧ t = count ∧ ∃ e, env = some e ∧ answer = .error e := by
  cases op <;> cases env <;> cases served <;> simp [Op.ofLatch,Op.owed,sub_eq_add_neg]

def begun (setting : Setting) (op : Op) : List ℤ := (spawns setting op).map fun _ => 1

private theorem begun_owed (setting : Setting) (op : Op) :
    (if op.ofLatch then op.owed else 0) = op.owed + (begun setting op).sum := by
  cases op <;> rfl

section
variable {setting : Setting} {p q : Context} {act : Threads.Act Request (Option Raised)}

private theorem step_accounted {Owes : ℤ → Prog → Prop} (calls : ∀ request : Request, Owes 0 request.program)
    (tasks : ∀ task : Task, Owes 1 (task.program setting))
    (returns : ∀ d op next, Owes d (.call op next) → Owes (d + op.owed) (next (.ok ())))
    (raises : ∀ i e op next, act = .step i (some e) → p.threads[i]? = some (.call op next) → op.ofLatch = false →
      ∀ d, Owes d (.call op next) → Owes d (next (.error e)))
    (accounted : Threads.Accounted Owes id p) (stepped : (system setting).step p act = some q) :
    Threads.Accounted Owes id q := by
  obtain ⟨request,-,rfl⟩ | ⟨i,env,op,next,t,answer,rfl,at_i,served,rfl⟩ := Threads.step_cases stepped
  · exact accounted.append (.cons (calls request) .nil) (by simp)
  · obtain ⟨rfl,moved⟩ | ⟨other,same,e,rfl,rfl⟩ := serve_cases served
    · rw [begun_owed setting] at moved
      refine accounted.step at_i op.owed (fun d => returns d op next) (begun setting op) ?_ ?_
      · cases op with
        | run_thread task => exact .cons (tasks task) .nil
        | _ => exact .nil
      · rw [id,id,moved,Int.add_assoc]
    · refine accounted.step at_i 0 (fun d owes => ?_) [] .nil (by simp [same])
      rw [Int.add_zero]
      exact raises i e op next rfl at_i other d owes

def Owes (setting : Setting) (d : ℤ) (thread : Prog) : Prop := Sound setting thread d ∨ d = 1 ∧ Doomed thread

private theorem step_owes (accounted : Threads.Accounted (Owes setting) id p)
    (stepped : (system setting).step p act = some q) : Threads.Accounted (Owes setting) id q := by
  refine step_accounted (fun request => .inl (push_sound _ _)) (fun task => .inl (task_sound task)) ?_ ?_
    accounted stepped
  · rintro d op next (sound | ⟨rfl,doomed⟩)
    · exact .inl sound.1
    · exact .inr ⟨by rw [doomed.1]; rfl,doomed.2 _⟩
  · rintro i e op next - - other d (sound | ⟨rfl,doomed⟩)
    · have broken := sound.2 other e
      split at broken
      · exact .inl broken
      · exact .inr broken
    · exact .inr ⟨rfl,doomed.2 _⟩

theorem step_sound (accounted : Threads.Accounted (fun d thread => Sound setting thread d) id p)
    (whole : unbroken setting p act = true) (stepped : (system setting).step p act = some q) :
    Threads.Accounted (fun d thread => Sound setting thread d) id q := by
  refine step_accounted (fun request => push_sound _ _) task_sound (fun d op next sound => sound.1) ?_
    accounted stepped
  intro i e op next this at_i other d sound
  have spare : op.spare setting = true := by
    simpa [unbroken,this,at_i,other] using whole
  simpa [spare] using sound.2 other e

private theorem step_doomed (stepped : (system setting).step p act = some q) (broken : ∃ thread ∈ p.threads, Doomed thread) :
    ∃ thread ∈ q.threads, Doomed thread := by
  obtain ⟨thread,member,doomed⟩ := broken
  obtain ⟨request,-,rfl⟩ | ⟨i,env,op,next,t,answer,-,at_i,-,rfl⟩ := Threads.step_cases stepped
  · exact ⟨thread,List.mem_append_left _ member,doomed⟩
  · obtain ⟨j,at_j⟩ := List.mem_iff_getElem?.mp member
    by_cases same : i = j
    · subst same
      cases at_i.symm.trans at_j
      exact ⟨_,List.mem_append_left _ (List.mem_set (List.getElem?_eq_some_iff.mp at_i).1 _),doomed.2 answer⟩
    · refine ⟨thread,List.mem_append_left _ (List.mem_of_getElem? (i := j) ?_),doomed⟩
      rw [List.getElem?_set_ne same,at_j]

private theorem step_breaks (accounted : Threads.Accounted (Owes setting) id p)
    (stepped : (system setting).step p act = some q) (broken : ¬ unbroken setting p act = true) :
    ∃ thread ∈ q.threads, Doomed thread := by
  obtain ⟨request,rfl,-⟩ | ⟨i,env,op,next,t,answer,rfl,at_i,served,rfl⟩ := Threads.step_cases stepped
  · exact absurd rfl broken
  · obtain ⟨d,owes⟩ := accounted.owed at_i
    cases env with
    | none => exact absurd rfl broken
    | some raised =>
      simp only [unbroken,at_i,Bool.or_eq_true,not_or,Bool.not_eq_true] at broken
      refine ⟨next answer,List.mem_append_left _ (List.mem_set (List.getElem?_eq_some_iff.mp at_i).1 _),?_⟩
      have raises : answer = .error raised := by
        cases op <;> cases served <;> first | rfl | cases broken.1
      rw [raises]
      rcases owes with sound | ⟨-,doomed⟩
      · have breaks := sound.2 broken.1 raised
        rw [broken.2] at breaks
        exact breaks.2
      · exact doomed.2 _

end

private theorem run_breaks {setting : Setting} {acts : List (Threads.Act Request (Option Raised))} {p q : Context}
    (accounted : Threads.Accounted (Owes setting) id p) (run : (system setting).Run p acts q) :
    Threads.Accounted (Owes setting) id q ∧ (((system setting).restrict (unbroken setting)).Run p acts q ∨
      ∃ thread ∈ q.threads, Doomed thread) := by
  induction acts generalizing p with
  | nil =>
    obtain rfl := (System.run_nil_iff _ _ _).mp run
    exact ⟨accounted,.inl (System.run_nil _ _)⟩
  | cons act rest ih =>
    obtain ⟨next,stepped,tail⟩ := (System.run_cons_iff _ _ _ _ _).mp run
    obtain ⟨kept,later⟩ := ih (step_owes accounted stepped) tail
    refine ⟨kept,?_⟩
    by_cases whole : unbroken setting p act = true
    · refine later.imp (fun run' => ?_) id
      exact (System.run_cons_iff _ _ _ _ _).mpr ⟨next,(System.restrict_step_iff _ _ _ _ _).mpr ⟨whole,stepped⟩,run'⟩
    · have stays : ∀ t, (∃ thread ∈ next.threads, Doomed thread) → (system setting).Run next rest t →
          ∃ thread ∈ t.threads, Doomed thread := fun t doomed run' =>
        run'.invariant (P := fun t => ∃ thread ∈ t.threads, Doomed thread)
          (fun _ _ _ broken stepped => step_doomed stepped broken) doomed
      exact .inr (stays q (step_breaks accounted stepped whole) tail)

def left : Prog → ℤ
  | .ended (.error _) => 1
  | _ => 0

private theorem left_nonneg (thread : Prog) : 0 ≤ left thread := by
  unfold left
  split <;> decide

section
variable {setting : Setting} {thread : Prog}

private theorem left_eq (ended : Threads.Ended thread) {d : ℤ} (owes : Owes setting d thread) : d = left thread := by
  cases thread with
  | call op next => exact absurd ended not_false
  | ended result =>
    cases result with
    | ok _ => exact owes.elim id fun doomed => absurd doomed.2 not_false
    | error e => exact owes.elim (fun sound => absurd sound not_false) And.left

private theorem left_sound (ended : Threads.Ended thread) {d : ℤ} (sound : Sound setting thread d) : d = 0 := by
  cases thread with
  | call op next => exact absurd ended not_false
  | ended result =>
    cases result with
    | ok _ => exact sound
    | error e => exact absurd sound not_false

private theorem left_doomed (ended : Threads.Ended thread) (doomed : Doomed thread) : left thread = 1 := by
  cases thread with
  | call op next => exact absurd ended not_false
  | ended result =>
    cases result with
    | ok _ => exact absurd doomed not_false
    | error e => rfl

end

/-- The latch is released when all pushes have ended exactly if no step of the run has
broken one off. -/
theorem latch_released {setting : Setting} {acts : List (Threads.Act Request (Option Raised))} {s p : Context}
    (started : (system setting).start s) (run : (system setting).Run s acts p) (ended : AllEnded p) :
    p.shared = 0 ↔ ((system setting).restrict (unbroken setting)).Run s acts p := by
  obtain ⟨count,threads⟩ := s
  obtain ⟨zero,no_thread⟩ := started
  dsimp only at zero no_thread
  subst no_thread
  constructor
  · intro released
    obtain ⟨accounted,whole | ⟨thread,member,doomed⟩⟩ := run_breaks (.none zero) run
    · exact whole
    · exfalso
      have total := accounted.count_eq left fun thread inside d => left_eq (ended thread inside)
      have least : left thread ≤ (p.threads.map left).sum := by
        refine List.single_le_sum (fun d inside => ?_) _ (List.mem_map_of_mem member)
        obtain ⟨other,-,rfl⟩ := List.mem_map.mp inside
        exact left_nonneg other
      rw [left_doomed (ended thread member) doomed,← total,id,released] at least
      exact absurd least (by decide)
  · intro whole
    have accounted : Threads.Accounted (fun d thread => Sound setting thread d) id p :=
      whole.invariant (P := fun p => Threads.Accounted (fun d thread => Sound setting thread d) id p)
        (fun p act q kept stepped => by
          obtain ⟨allowed,stepped⟩ := (System.restrict_step_iff _ _ _ _ _).mp stepped
          exact step_sound kept allowed stepped) (.none zero)
    have total := accounted.count_eq (fun _ => 0) fun thread inside d => left_sound (ended thread inside)
    simpa using total

/-- A push of an object to one party, whose first attempt of two fails. -/
def retriedPush : List (Threads.Act Request (Option Raised)) :=
  [.invoke ⟨._push_bytes 1,[("guest","9999")]⟩,.step 0 none,.step 0 none,.step 0 none,.step 1 none,.step 1 none,
    .step 1 none,.step 1 (some "UNAVAILABLE"),.step 1 none,.step 1 none,.step 1 none,.step 1 none]

theorem latch_released_retried : ∃ p, (system ⟨2,false⟩).Run ⟨0,[]⟩ retriedPush p ∧ AllEnded p ∧
    (p.shared = 0 ↔ ((system ⟨2,false⟩).restrict (unbroken ⟨2,false⟩)).Run ⟨0,[]⟩ retriedPush p) := by
  obtain ⟨p,run,ended⟩ : ∃ p, (system ⟨2,false⟩).Run ⟨0,[]⟩ retriedPush p ∧ AllEnded p := by
    refine ⟨_,rfl,?_⟩
    rintro thread (_ | ⟨_,_ | ⟨_,member⟩⟩)
    · trivial
    · trivial
    · cases member
  exact ⟨p,run,ended,latch_released ⟨rfl,rfl⟩ run ended⟩

def failedPush : List (Threads.Act Request (Option Raised)) :=
  [.invoke ⟨._push_bytes 1,[("guest","9999")]⟩,.step 0 none,.step 0 none,.step 0 none,.step 1 none,.step 1 none,
    .step 1 none,.step 1 (some "UNAVAILABLE"),.step 1 none]

/-- The exception of the last attempt goes past the count down. -/
theorem failed_push_not_released : ¬ ∀ setting acts s p, (system setting).start s → (system setting).Run s acts p →
    AllEnded p → p.shared = 0 := by
  intro always
  have last : ∃ p, (system ⟨1,false⟩).Run ⟨0,[]⟩ failedPush p ∧ p.shared = 1 ∧ AllEnded p := by
    refine ⟨_,rfl,rfl,?_⟩
    rintro thread (_ | ⟨_,_ | ⟨_,member⟩⟩)
    · trivial
    · trivial
    · cases member
  obtain ⟨p,run,count,ended⟩ := last
  have released := always ⟨1,false⟩ failedPush ⟨0,[]⟩ p ⟨rfl,rfl⟩ run ended
  rw [released] at count
  cases count

end Eggroll.PushingLatch
