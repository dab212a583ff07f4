import Eggroll.Library.Failure
import Eggroll.SessionMachine

/-! What the calls of the state machines come to when a change has the tables for itself, and
what it reads of a session and of a processor. -/
namespace Eggroll.Cluster
open Library
open Program hiding call

variable {s t : Tables} {op : Op}

theorem served_cases {env : Env} {answer : Except Failure (Ans op)} (served : Tables.serve s op env = some (t,answer)) :
    (t = s ∧ ∃ e, answer = .error e) ∨ (t = s.write op ∧ answer = .ok (s.answer env op)) := by
  simp only [Tables.serve] at served
  split at served
  case h_1 e _ =>
    cases served
    exact .inl ⟨rfl,e,rfl⟩
  case h_2 =>
    split at served
    · cases served
      exact .inl ⟨rfl,_,rfl⟩
    · cases served
      exact .inr ⟨rfl,rfl⟩

theorem yields_call {last : Except Failure (Ans op)} : (call op).Yields Tables.serve s t last ↔
    (t = s ∧ ∃ e, last = .error e ∧ (Tables.failure op = some e ∨ s.refuses op ∧ e = .duplicate)) ∨
      (s.refuses op = false ∧ t = s.write op ∧ ∃ env, last = .ok (s.answer env op)) := by
  rw [call,yields_perform]
  constructor
  · rintro ⟨env,served⟩
    simp only [Tables.serve] at served
    split at served
    case h_1 e failing =>
      cases served
      refine .inl ⟨rfl,e,rfl,.inl ?_⟩
      split at failing
      · exact failing
      · cases failing
    case h_2 =>
      cases refused : s.refuses op with
      | true =>
        rw [refused] at served
        cases served
        exact .inl ⟨rfl,_,rfl,.inr ⟨rfl,rfl⟩⟩
      | false =>
        rw [refused] at served
        cases served
        exact .inr ⟨rfl,rfl,env,rfl⟩
  · rintro (⟨rfl,e,rfl,failing | ⟨refused,rfl⟩⟩ | ⟨granted,rfl,env,rfl⟩)
    · exact ⟨⟨true,[],0,false⟩,by simp [Tables.serve,failing]⟩
    · exact ⟨{},by simp [Tables.serve,refused]⟩
    · refine ⟨{ env with fails := false },?_⟩
      have same : s.answer { env with fails := false } op = s.answer env op := by
        cases op <;> rfl
      simp [Tables.serve,granted,same]

theorem call_succeeds (env : Env) (granted : s.refuses op = false) :
    (call op).Yields Tables.serve s (s.write op) (.ok (s.answer env op)) :=
  yields_call.mpr (.inr ⟨granted,rfl,env,rfl⟩)

theorem call_falls {e : Failure} (fails : Tables.failure op = some e) : (call op).Stays Tables.serve Raised :=
  fun _ => ⟨.error e,yields_call.mpr (.inl ⟨rfl,e,rfl,.inl fails⟩),trivial⟩

theorem call_atomic : (call op).Atomic Tables.serve s := by
  intro t e ends
  rcases yields_call.mp ends with ⟨rfl,-⟩ | ⟨-,-,_,⟨⟩⟩
  rfl

theorem call_still (same : s.write op = s) :
    (call op).Still Tables.serve (fun result => ∀ a, result = .ok a → ∃ env, a = s.answer env op) s := by
  intro t result ends
  rcases yields_call.mp ends with ⟨rfl,e,rfl,-⟩ | ⟨-,rfl,env,rfl⟩
  · exact ⟨rfl,nofun⟩
  · exact ⟨same,fun a is => ⟨env,(Except.ok.inj is).symm⟩⟩

theorem reads_call {a : Ans op} (same : s.write op = s) (granted : s.refuses op = false)
    (answers : ∀ env, s.answer env op = a) : (call op).Reads Tables.serve s a := by
  refine ⟨(call_still same).mono fun result answered b is => ?_,?_⟩
  · obtain ⟨env,rfl⟩ := answered b is
    exact answers env
  · have ends := call_succeeds {} granted
    rwa [same,answers] at ends

theorem call_alters {Q : Except Failure (Ans op) → Prop} (granted : s.refuses op = false)
    (altered : s.write op ≠ s) (holds : Q (.ok (s.answer {} op))) : (call op).Alters Tables.serve Q s :=
  ⟨_,_,call_succeeds {} granted,altered,holds⟩

theorem reads_lock (cache : LockCache) (key : String) : (call (.lock cache key)).Reads Tables.serve s () :=
  reads_call rfl rfl fun _ => rfl

theorem unLock_still (cache : LockCache) (key : String) :
    (call (.unLock cache key)).Still Tables.serve (fun result => result = .ok ()) s := by
  intro t result ends
  rcases yields_call.mp ends with ⟨-,e,-,failing | ⟨refused,-⟩⟩ | ⟨-,rfl,env,rfl⟩
  · cases failing
  · cases refused
  · exact ⟨rfl,rfl⟩

theorem unLock_stays (cache : LockCache) (key : String) :
    (call (.unLock cache key)).Stays Tables.serve (fun result => result = .ok ()) := fun s =>
  ⟨.ok (),call_succeeds (s := s) {} rfl,rfl⟩

theorem session_spec {sessionId : String} {row : SessionMain} (found : s.session sessionId = some row) :
    row ∈ s.sessions ∧ row.sessionId = sessionId :=
  ⟨List.mem_of_find?_eq_some found,by simpa using List.find?_some found⟩

theorem session_update {sessionId : String} (other : String) (patch : SessionPatch) :
    (s.write (.updateSession other patch)).session sessionId =
      (s.session sessionId).map fun row => if row.sessionId = other then patch.apply row else row := by
  simp only [Tables.session,Tables.write,List.find?_map]
  congr 2
  funext row
  simp only [Function.comp_apply]
  split <;> rfl

namespace Tables

def readResources (s : Tables) (erProcessor : ErProcessor) : ErProcessor :=
  { erProcessor with resources := (s.resourcesOf erProcessor.id).map ProcessorResource.toErResource }

def readProcessors (s : Tables) (sessionId : String) (withResource : Bool) : List ErProcessor :=
  let processors := (s.processorsOf sessionId).map SessionProcessor.toErProcessor
  if withResource then processors.map s.readResources else processors

def readOptions (s : Tables) (sessionId : String) : Options := (s.optionsOf sessionId).foldl putOption []

def readSession (s : Tables) (sessionId : String) (withProcessor withOption withResource : Bool) :
    Option ErSessionMeta :=
  (s.session sessionId).map fun row => { row.toErSessionMeta with
    processors := if withProcessor then s.readProcessors sessionId withResource else []
    options := if withOption then s.readOptions sessionId else [] }

end Tables

private theorem reads_withResources (processors : List ErProcessor) :
    (withResources processors).Reads Tables.serve s (processors.map s.readResources) := by
  induction processors with
  | nil => exact .pure
  | cons processor rest ih =>
    exact .bind (reads_call rfl rfl fun _ => rfl) (.bind ih .pure)

private theorem reads_getProcessorBySession (sessionId : String) (withResource : Bool) :
    (getProcessorBySession sessionId withResource).Reads Tables.serve s (s.readProcessors sessionId withResource) := by
  refine .bind (reads_call rfl rfl fun _ => rfl) (.bind (reads_call rfl rfl fun _ => rfl) ?_)
  cases withResource with
  | true => exact reads_withResources _
  | false => exact .pure

theorem reads_getSession (sessionId : String) (withProcessor withOption withResource : Bool) :
    (getSession sessionId withProcessor withOption withResource).Reads Tables.serve s
      (s.readSession sessionId withProcessor withOption withResource) := by
  refine .bind (a := s.session sessionId) (reads_call rfl rfl fun _ => rfl) ?_
  simp only [Tables.readSession]
  have processors := reads_getProcessorBySession (s := s) sessionId withResource
  have options : (call (.listOptions sessionId)).Reads Tables.serve s (s.optionsOf sessionId) :=
    reads_call rfl rfl fun _ => rfl
  cases s.session sessionId with
  | none => exact .pure
  | some row =>
    cases withProcessor with
    | true =>
      cases withOption with
      | true => exact .bind processors (.bind options .pure)
      | false => exact .bind processors (.bind .pure .pure)
    | false =>
      cases withOption with
      | true => exact .bind .pure (.bind options .pure)
      | false => exact .bind .pure (.bind .pure .pure)

end Eggroll.Cluster
