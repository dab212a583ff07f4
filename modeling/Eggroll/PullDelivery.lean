import Eggroll.BatchReplay
import Eggroll.PullOne
import Eggroll.RollSiteDelivery

/-! What a pull returns. A status that is finished means that its partition's store has every
pair, and a store never loses or gains a pair that is not the partition's; so what is read after
all the statuses is what was pushed, whatever still runs. -/
namespace Eggroll.PullOne
open Library Format BatchStream RollSite BinBatch BatchReplay

private theorem advance_data_type (h : BatchStreamHelper) (prev_batch : Option Bytes) (rest : List (Option Bytes)) :
    (Generator.advance h prev_batch rest).1.header.data_type = h.rs_header.data_type ∧
      (Generator.advance h prev_batch rest).2.1.rs_header.data_type = h.rs_header.data_type := by
  induction rest generalizing prev_batch with
  | nil =>
    unfold Generator.advance BatchStreamHelper.mark_finish
    split <;> exact ⟨rfl,rfl⟩
  | cons bin_batch rest ih =>
    unfold Generator.advance
    split
    · exact ⟨rfl,rfl⟩
    · exact ih bin_batch

private theorem next_data_type {h h' : BatchStreamHelper} {stream : List (Option Bytes)} {cur_retry : Nat}
    {g g' : Generator} {packet : Packet} (pulled : g.next h stream cur_retry = some (packet,h',g')) :
    packet.header.data_type = h.rs_header.data_type ∧ h'.rs_header.data_type = h.rs_header.data_type := by
  have rewound : (h.rewind cur_retry).rs_header.data_type = h.rs_header.data_type := by
    unfold BatchStreamHelper.rewind
    split <;> rfl
  cases g with
  | fresh =>
    have walked := advance_data_type (h.rewind cur_retry) none stream
    rw [Option.some.inj pulled,rewound] at walked
    exact walked
  | looping prev_batch rest =>
    have walked := advance_data_type h prev_batch rest
    rw [Option.some.inj pulled] at walked
    exact walked
  | exhausted => contradiction

def Arrived (job : Job) (bss : BatchStreamStatus) : Prop :=
  ∀ header, bss.rs_header = some header → header.data_type = job.data_type

structure Typed (job : Job) (s : RollSite.State) : Prop where
  helper : s.sender.helper.rs_header.data_type = job.data_type
  packets : ∀ call, ∀ packet ∈ s.sent call, packet.header.data_type = job.data_type
  arrived : Arrived job s.status

section
variable {job : Job}

theorem Arrived.put_batch {bss bss' : BatchStreamStatus} {txn : Store.Db} {packet : Packet}
    (arrived : Arrived job bss) (typed : packet.header.data_type = job.data_type)
    (counted : (put_batch job.accepts bss txn packet).2 = some bss') : Arrived job bss' := by
  have kept : bss'.rs_header = bss.rs_header.or (some packet.header) := by
    rw [put_batch_record] at counted
    obtain ⟨count,-,rfl⟩ := Option.map_eq_some_iff.mp counted
    unfold record
    split <;> rfl
  intro header first
  rw [kept] at first
  cases known : bss.rs_header with
  | some header' =>
    rw [known,Option.some_or] at first
    exact arrived header (known.trans first)
  | none =>
    rw [known,Option.none_or,Option.some.injEq] at first
    exact first ▸ typed

theorem Typed.init (db : Store.Db) : Typed job (job.init db) where
  helper := rfl
  packets _ _ member := absurd member List.not_mem_nil
  arrived _ first := by simp [Job.init,RollSite.State.status,BatchStreamStatus.create] at first

private theorem call_helper (s : RollSite.State) (stream : List (Option Bytes)) (cur_retry : Nat)
    (stuck : RollSite.Phase) : (job.call s stream cur_retry stuck).sender.helper = s.sender.helper := by
  unfold Job.call
  split <;> rfl

private theorem loop_data_type {s t : RollSite.State}
    (stepped : job.next_stream s = some t ∨ Job.succeed s = some t ∨ job.fail s = some t) :
    t.sender.helper.rs_header.data_type = s.sender.helper.rs_header.data_type := by
  rcases stepped with stepped | stepped | stepped
  · unfold Job.next_stream at stepped
    split at stepped
    · split at stepped
      · cases stepped
        rfl
      · obtain ⟨⟨peek,rest⟩,-,rfl⟩ := Option.map_eq_some_iff.mp stepped
        rw [call_helper]
    · contradiction
  · unfold Job.succeed at stepped
    split at stepped
    · cases stepped
      rfl
    · contradiction
  · unfold Job.fail at stepped
    split at stepped
    · cases stepped
      rw [call_helper]
    · contradiction

theorem Typed.step {s t : RollSite.State} {a : RollSite.Act} (typed : Typed job s)
    (stepped : job.step s a = some t) : Typed job t := by
  have looped (stepped : job.next_stream s = some t ∨ Job.succeed s = some t ∨ job.fail s = some t) :
      Typed job t := by
    obtain ⟨sent,recorder,-,-⟩ := sender_frame job stepped
    refine ⟨(loop_data_type stepped).trans typed.helper,sent ▸ typed.packets,?_⟩
    rw [RollSite.State.status,recorder]
    exact typed.arrived
  cases a with
  | next_stream => exact looped (.inl stepped)
  | succeed => exact looped (.inr (.inl stepped))
  | fail => exact looped (.inr (.inr stepped))
  | pull =>
    simp only [Job.step,Job.pull] at stepped
    split at stepped
    · obtain ⟨⟨packet,helper,packets'⟩,pulled,rfl⟩ := Option.map_eq_some_iff.mp stepped
      obtain ⟨sent,kept⟩ := next_data_type pulled
      refine ⟨kept.trans typed.helper,fun call p member => ?_,typed.arrived⟩
      simp only [Function.update_apply] at member
      split at member
      · rcases List.mem_append.mp member with old | new
        · exact typed.packets _ p old
        · rw [List.mem_singleton.mp new]
          exact sent.trans typed.helper
      · exact typed.packets call p member
    · contradiction
  | begin call =>
    simp only [Job.step,Job.begin] at stepped
    split at stepped
    · cases stepped
      exact ⟨typed.helper,typed.packets,typed.arrived⟩
    · contradiction
  | process =>
    obtain ⟨run,-,stepped⟩ := Option.bind_eq_some_iff.mp stepped
    obtain ⟨packet,delivered,stepped⟩ := Option.bind_eq_some_iff.mp stepped
    have sent := typed.packets run.call packet (List.mem_of_getElem? delivered)
    rcases result : BatchStream.put_batch job.accepts s.status run.txn packet with ⟨txn,_ | bss⟩
    all_goals
      simp only [result,Option.some.injEq] at stepped
      subst stepped
    · exact ⟨typed.helper,typed.packets,typed.arrived⟩
    · exact ⟨typed.helper,typed.packets,typed.arrived.put_batch sent (congrArg Prod.snd result)⟩
  | close =>
    obtain ⟨run,-,rfl⟩ := Option.map_eq_some_iff.mp stepped
    refine ⟨typed.helper,typed.packets,fun header first => typed.arrived header ?_⟩
    simp only [RollSite.State.status,Option.getD_some] at first ⊢
    unfold BatchStreamStatus.check_finish at first
    split at first <;> exact first
  | abort =>
    obtain ⟨run,-,rfl⟩ := Option.map_eq_some_iff.mp stepped
    exact ⟨typed.helper,typed.packets,typed.arrived⟩

end

def Stores (job : Job) (s t : RollSite.State) : Prop :=
  ∃ group : List Pair, (∀ pair ∈ group, pair ∈ job.pairs) ∧
    t.visible = (putPairs job.accepts group s.visible).1 ∧ (t.db = s.db ∨ t.db = t.visible)

structure Filled (job : Job) (s : RollSite.State) : Prop where
  ahead : ∀ pair ∈ job.pairs, Has s.db pair → Has s.visible pair
  inside : ∀ pair, Has s.visible pair → pair ∈ job.pairs
  committed : ∀ pair, Has s.db pair → pair ∈ job.pairs

section
variable {job : Job}

theorem Stores.same {s t : RollSite.State} (db : t.db = s.db) (run : t.run = s.run) : Stores job s t :=
  ⟨[],fun _ member => absurd member List.not_mem_nil,by rw [RollSite.State.visible,db,run]; rfl,.inl db⟩

theorem Stores.commit {s t : RollSite.State} {run : PutBatchRun} (running : s.run = some run)
    (db : t.db = run.txn) (ended : t.run = none) : Stores job s t := by
  have visible : t.visible = run.txn := by rw [RollSite.State.visible,ended]; exact db
  refine ⟨[],fun _ member => absurd member List.not_mem_nil,?_,.inr (db.trans visible.symm)⟩
  rw [visible,RollSite.State.visible,running]
  rfl

private theorem putPairs_inside {accepts : Bytes → Bool} (group : List Pair) {txn : Store.Db} {pair : Pair}
    (held : Has (putPairs accepts group txn).1 pair) : pair ∈ group ∨ Has txn pair := by
  induction group generalizing txn with
  | nil => exact .inr held
  | cons p rest ih =>
    rw [putPairs] at held
    split at held
    · exact .inr held
    · rename_i txn' put
      rcases ih held with later | before
      · exact .inl (List.mem_cons_of_mem p later)
      · rw [Has,Store.put_get put] at before
        split at before
        · rename_i same
          exact .inl (List.mem_cons.mpr (.inl (Prod.ext same.symm (Option.some.inj before).symm)))
        · exact .inr before

private theorem stores_step (whole : ∀ batch ∈ job.bin_batches, Whole batch)
    (carried : job.bin_batches.flatMap inflight = job.pairs) {s t : RollSite.State} {a : RollSite.Act}
    (inv : Invariant job s) (stepped : job.step s a = some t) : Stores job s t := by
  cases a with
  | next_stream =>
    obtain ⟨-,-,db,run⟩ := sender_frame job (.inl stepped)
    exact .same db run
  | succeed =>
    obtain ⟨-,-,db,run⟩ := sender_frame job (.inr (.inl stepped))
    exact .same db run
  | fail =>
    obtain ⟨-,-,db,run⟩ := sender_frame job (.inr (.inr stepped))
    exact .same db run
  | pull =>
    simp only [Job.step,Job.pull] at stepped
    split at stepped
    · obtain ⟨_,-,rfl⟩ := Option.map_eq_some_iff.mp stepped
      exact .same rfl rfl
    · contradiction
  | begin call =>
    simp only [Job.step,Job.begin] at stepped
    split at stepped
    · rename_i free
      cases stepped
      refine ⟨[],fun _ member => absurd member List.not_mem_nil,?_,.inl rfl⟩
      rw [RollSite.State.visible,RollSite.State.visible,Option.isNone_iff_eq_none.mp free.1]
      rfl
    · contradiction
  | process =>
    obtain ⟨run,running,stepped⟩ := Option.bind_eq_some_iff.mp stepped
    obtain ⟨packet,delivered,stepped⟩ := Option.bind_eq_some_iff.mp stepped
    have seen : s.visible = run.txn := by rw [RollSite.State.visible,running]; rfl
    obtain ⟨i,batch,position,data,-,-⟩ := inv.genuine run.call packet (List.mem_of_getElem? delivered)
    obtain ⟨group,encodable,rfl⟩ := whole batch (List.mem_of_getElem? position)
    have carries : inflight (some (batchOf group)) = group := by
      rw [inflight,decoded_batchOf group encodable,Option.getD_some]
    have within (pair : Pair) (member : pair ∈ group) : pair ∈ job.pairs :=
      carried_inside carried position (carries.symm ▸ member)
    have text := (put_batch_whole job.accepts s.status run.txn encodable data).1
    rcases result : BatchStream.put_batch job.accepts s.status run.txn packet with ⟨txn,_ | bss⟩
    all_goals
      simp only [result,Option.some.injEq] at stepped text
      subst stepped
    · exact ⟨group,within,seen ▸ text,.inr rfl⟩
    · exact ⟨group,within,seen ▸ text,.inl rfl⟩
  | close =>
    obtain ⟨run,running,rfl⟩ := Option.map_eq_some_iff.mp stepped
    exact .commit running rfl rfl
  | abort =>
    obtain ⟨run,running,rfl⟩ := Option.map_eq_some_iff.mp stepped
    exact .commit running rfl rfl

variable (distinct : (job.pairs.map Prod.fst).Nodup) {s t : RollSite.State}
include distinct

theorem Stores.kept (stores : Stores job s t) {pair : Pair} (member : pair ∈ job.pairs)
    (held : Has s.visible pair) : Has t.visible pair := by
  obtain ⟨group,within,visible,-⟩ := stores
  rw [visible]
  exact putPairs_kept distinct member group within held

private theorem Stores.kept_db (stores : Stores job s t) (filled : Filled job s) {pair : Pair} (member : pair ∈ job.pairs)
    (held : Has s.db pair) : Has t.db pair := by
  obtain ⟨-,-,-,same | commit⟩ := id stores
  · rw [same]
    exact held
  · rw [commit]
    exact stores.kept distinct member (filled.ahead pair member held)

theorem Filled.step (filled : Filled job s) (stores : Stores job s t) : Filled job t := by
  have inside : ∀ pair, Has t.visible pair → pair ∈ job.pairs := by
    obtain ⟨group,within,visible,-⟩ := stores
    intro pair held
    rw [visible] at held
    rcases putPairs_inside group held with put | before
    · exact within pair put
    · exact filled.inside pair before
  have stored {pair : Pair} (member : pair ∈ job.pairs) := stores.kept distinct member
  obtain ⟨-,-,-,same | commit⟩ := stores
  · refine ⟨fun pair member held => ?_,inside,same ▸ filled.committed⟩
    exact stored member (filled.ahead pair member (same ▸ held))
  · exact ⟨fun pair _ held => commit ▸ held,inside,commit ▸ inside⟩

theorem Stores.status (stores : Stores job s t) (filled : Filled job s) {bss : BatchStreamStatus}
    (sound : ReceiverSound job bss s.visible s.db) (carried : job.bin_batches.flatMap inflight = job.pairs) :
    ReceiverSound job bss t.visible t.db where
  tally := sound.tally
  stored i batch position counted pair member := stores.kept distinct (carried_inside carried position member)
    (sound.stored i batch position counted pair member)
  done := sound.done
  finished event := by
    obtain ⟨stage,full,all⟩ := sound.finished event
    exact ⟨stage,full,fun pair member => stores.kept_db distinct filled member (all pair member)⟩

end

/-- What holds of a partition whatever runs: of the status that a PutBatch run under way counts
on, and of the recorder's. -/
structure Sound (job : Job) (p : Partition) : Prop where
  typed : Typed job p.seen
  seen : Invariant job p.seen
  recorded : Arrived job p.transfer.status
  known : ReceiverSound job p.transfer.status p.transfer.visible p.transfer.db
  filled : Filled job p.seen

def Complete (job : Job) (p : Partition) : Prop := ∀ pair ∈ job.pairs, Has p.transfer.db pair

section
variable {job : Job}

private theorem arrived_create : Arrived job BatchStreamStatus.create :=
  fun _ first => by simp [BatchStreamStatus.create] at first

private theorem known_create (txn db : Store.Db) : ReceiverSound job BatchStreamStatus.create txn db where
  tally := Tally.empty
  stored _ _ _ member := absurd member (AList.notMem_empty _)
  done early := by simp [BatchStreamStatus.create] at early
  finished early := by simp [BatchStreamStatus.create] at early

theorem Sound.swap {t : RollSite.State} {recorder held : Option BatchStreamStatus} (typed : Typed job t)
    (inv : Invariant job t) (filled : Filled job t) (which : held = none ∨ held = t.recorder)
    (recorded : Arrived job (recorder.getD BatchStreamStatus.create))
    (known : ReceiverSound job (recorder.getD BatchStreamStatus.create) t.visible t.db) :
    Sound job ⟨{ t with recorder := recorder },held⟩ := by
  refine ⟨⟨typed.helper,typed.packets,?_⟩,⟨inv.sender,inv.genuine,?_⟩,recorded,known,
    ⟨filled.ahead,filled.inside,filled.committed⟩⟩
  · cases held with
    | none => exact recorded
    | some bss =>
      have own := typed.arrived
      rw [RollSite.State.status,← which.resolve_left (by simp)] at own
      exact own
  · cases held with
    | none => exact known
    | some bss =>
      have own := inv.receiver
      rw [RollSite.State.status,← which.resolve_left (by simp)] at own
      exact own

private theorem Partition.held_seen (p : Partition) : p.held = none ∨ p.held = p.seen.recorder := by
  rcases p with ⟨transfer,_ | bss⟩
  · exact .inl rfl
  · exact .inr rfl

theorem Sound.get_or_create {p : Partition} (sound : Sound job p) : Sound job p.get_or_create :=
  .swap (t := p.seen) sound.typed sound.seen sound.filled p.held_seen sound.recorded sound.known

theorem Sound.clear_status {p : Partition} (sound : Sound job p) : Sound job p.clear_status := by
  refine .swap (t := p.seen) sound.typed sound.seen sound.filled ?_ arrived_create (known_create _ _)
  rcases p with ⟨⟨sender,calls,sent,begun,recorder,db,_ | run⟩,_ | bss⟩
  · exact .inl rfl
  · exact .inr rfl
  · exact .inr rfl
  · exact .inr rfl

theorem Sound.init : Sound job ⟨job.init ∅,none⟩ := by
  have empty (pair : Pair) : ¬ Has (∅ : Store.Db) pair := by simp [Has]
  refine ⟨Typed.init ∅,⟨SenderSound.init ∅,fun _ _ member => absurd member List.not_mem_nil,
    ReceiverSound.create⟩,arrived_create,ReceiverSound.create,⟨?_,?_,?_⟩⟩
  · exact fun pair _ held => absurd held (empty pair)
  · exact fun pair held => absurd held (empty pair)
  · exact fun pair held => absurd held (empty pair)

theorem Sound.complete {p : Partition} (sound : Sound job p)
    (finished : p.transfer.wait_finish.is_finished = true) : Complete job p :=
  (sound.known.finished finished).2.2

theorem Sound.receive (whole : ∀ batch ∈ job.bin_batches, Whole batch)
    (carried : job.bin_batches.flatMap inflight = job.pairs) (distinct : (job.pairs.map Prod.fst).Nodup)
    {p q : Partition} {a : RollSite.Act} (sound : Sound job p) (allowed : Job.resumes p.transfer a = true)
    (received : p.receive job a = some q) : Sound job q ∧ (Complete job p → Complete job q) := by
  have stepped (t : RollSite.State) (stepped : job.step p.seen a = some t) :
      Typed job t ∧ Invariant job t ∧ Stores job p.seen t := by
    have again : Job.resumes p.seen a = true := by cases a <;> exact allowed
    exact ⟨sound.typed.step stepped,sound.seen.step whole carried distinct again stepped,
      stores_step whole carried sound.seen stepped⟩
  cases held : p.held with
  | none =>
    simp only [Partition.receive,held] at received
    obtain ⟨t,run,rfl⟩ := Option.map_eq_some_iff.mp received
    obtain ⟨typed,inv,stores⟩ := stepped t run
    exact ⟨.swap typed inv (sound.filled.step distinct stores) (.inl rfl) typed.arrived inv.receiver,
      fun full pair member => stores.kept_db distinct sound.filled member (full pair member)⟩
  | some bss =>
    simp only [Partition.receive,held] at received
    obtain ⟨t,run,rfl⟩ := Option.map_eq_some_iff.mp received
    obtain ⟨typed,inv,stores⟩ := stepped t run
    have which : (t.run.bind fun _ => t.recorder) = none ∨ (t.run.bind fun _ => t.recorder) = t.recorder := by
      cases t.run with
      | none => exact .inl rfl
      | some run => exact .inr rfl
    exact ⟨.swap typed inv (sound.filled.step distinct stores) which sound.recorded
        (stores.status distinct sound.filled sound.known carried),
      fun full pair member => stores.kept_db distinct sound.filled member (full pair member)⟩

theorem Sound.exact {p : Partition} (sound : Sound job p) (complete : Complete job p)
    (distinct : (job.pairs.map Prod.fst).Nodup) : p.transfer.db.toList.Perm job.pairs := by
  have nodup : p.transfer.db.toList.Nodup := by
    apply Std.ExtTreeMap.distinct_keys_toList.imp
    intro pair pair' apart same
    exact apart (same ▸ Std.ReflCmp.compare_self)
  rw [List.perm_ext_iff_of_nodup nodup (List.Nodup.of_map _ distinct)]
  intro pair
  rw [Std.ExtTreeMap.mem_toList_iff_getElem?_eq_some]
  exact ⟨sound.filled.committed pair,complete pair⟩

end
/-- Each partition is pushed from pairs with distinct, non-empty keys that fit a batch. -/
structure Transfer.Pushed (T : Transfer) : Prop where
  produced : ∀ i < T.total_partitions, (T.job i).Produced
  nonempty : ∀ i < T.total_partitions, ∀ pair ∈ (T.job i).pairs, pair.1 ≠ []
  distinct : ∀ i < T.total_partitions, ((T.job i).pairs.map Prod.fst).Nodup

/-- All pairs of the transfer. -/
def Transfer.pairs (T : Transfer) : List Pair := (List.range T.total_partitions).flatMap fun i => (T.job i).pairs

def Transfer.data_type (T : Transfer) : String := (T.job 0).data_type

def AllSound (T : Transfer) (s : State) : Prop := ∀ i, Sound (T.job i) (s.parts i)

def AllComplete (T : Transfer) (s : State) : Prop := ∀ i < T.total_partitions, Complete (T.job i) (s.parts i)

def Joined (T : Transfer) (result : Bytes) : Prop :=
  ∃ all : List Pair, all.Perm T.pairs ∧ result = ObjectTransfer.join_sorted all

/-- What is known of the partitions where the pull stands. From the first `destroy` on nothing is,
and the object has been read. -/
def Known (T : Transfer) (s : State) : Phase → Prop
  | .header _ => AllSound T s
  | .polling _ _ pull_status => AllSound T s ∧ s.pull.data_type = some T.data_type ∧
      ∀ i bss, pull_status i = some bss → bss.is_finished = true → Complete (T.job i) (s.parts i)
  | .reading read => AllSound T s ∧ AllComplete T s ∧ T.data_type = "object" ∧
      ∀ i all, read i = some all → all.Perm (T.job i).pairs
  | .registered | .returned .roll_pair => AllSound T s ∧ AllComplete T s ∧ T.data_type ≠ "object"
  | .destroying result _ | .returned (.object result) => T.data_type = "object" ∧ Joined T result
  | .raised _ => True

section
variable {T : Transfer}

theorem Known.poll {s : State} (sound : AllSound T s) (typed : s.pull.data_type = some T.data_type)
    (cur_retry : Nat) (last_cur_pairs : Int) : Known T s (T.poll cur_retry last_cur_pairs) := by
  unfold Transfer.poll
  split
  · exact ⟨sound,typed,fun i bss early => by simp at early⟩
  · trivial

theorem Known.await {s : State} (sound : AllSound T s) (wait_time : Nat) : Known T s (T.await wait_time) := by
  unfold Transfer.await
  split
  · exact sound
  · trivial

theorem AllSound.setPart {s : State} {i : Nat} {p : Partition} (sound : AllSound T s)
    (replaced : Sound (T.job i) p) : AllSound T (s.setPart i p) := by
  intro j
  by_cases here : j = i
  · subst here
    simpa [State.setPart] using replaced
  · simpa [State.setPart,here] using sound j

theorem Known.setPart {s : State} {i : Nat} {p : Partition} {phase : Phase}
    (replaced : Sound (T.job i) (s.parts i) → Sound (T.job i) p ∧
      (Complete (T.job i) (s.parts i) → Complete (T.job i) p))
    (known : Known T s phase) : Known T (s.setPart i p) phase := by
  have sound (all : AllSound T s) : AllSound T (s.setPart i p) := all.setPart (replaced (all i)).1
  have complete (all : AllSound T s) (j : Nat) (full : Complete (T.job j) (s.parts j)) :
      Complete (T.job j) ((s.setPart i p).parts j) := by
    by_cases here : j = i
    · subst here
      simpa [State.setPart] using (replaced (all j)).2 full
    · simpa [State.setPart,here] using full
  have every (all : AllSound T s) (full : AllComplete T s) : AllComplete T (s.setPart i p) :=
    fun j inside => complete all j (full j inside)
  cases phase with
  | header wait_time => exact sound known
  | polling cur_retry last_cur_pairs pull_status =>
    obtain ⟨all,typed,finished⟩ := known
    exact ⟨sound all,typed,fun j bss answered ended => complete all j (finished j bss answered ended)⟩
  | reading read =>
    obtain ⟨all,full,typed,gotten⟩ := known
    exact ⟨sound all,every all full,typed,gotten⟩
  | registered =>
    obtain ⟨all,full,typed⟩ := known
    exact ⟨sound all,every all full,typed⟩
  | destroying result left => exact known
  | returned result =>
    cases result with
    | object data => exact known
    | roll_pair =>
      obtain ⟨all,full,typed⟩ := known
      exact ⟨sound all,every all full,typed⟩
  | raised e => trivial

theorem Known.get_or_create {s : State} {i : Nat} {phase : Phase} (known : Known T s phase) :
    Known T (s.setPart i (s.parts i).get_or_create) phase :=
  known.setPart fun sound => ⟨sound.get_or_create,id⟩

theorem Known.finished {s : State} (sound : AllSound T s) (full : AllComplete T s)
    (typed : s.pull.data_type = some T.data_type) : Known T (T.finished s) (T.finished s).pull.phase := by
  unfold Transfer.finished
  simp only [typed,Option.some.injEq]
  split
  · rename_i object
    exact ⟨sound,full,object,fun i all early => by simp at early⟩
  · rename_i other
    exact ⟨sound,full,other⟩

theorem Known.check {s t : State} (known : Known T s s.pull.phase) (stepped : T.check s = some t) :
    Known T t t.pull.phase := by
  unfold Transfer.check at stepped
  split at stepped
  · rename_i cur_retry last_cur_pairs pull_status phase
    rw [phase] at known
    obtain ⟨sound,typed,finished⟩ := known
    dsimp only at stepped
    split at stepped
    · split at stepped
      · rename_i all_finished
        have full : AllComplete T s := by
          intro i inside
          have answered := List.all_eq_true.mp all_finished (pull_status i)
            (List.mem_map_of_mem (List.mem_range.mpr inside))
          obtain ⟨bss,here,ended⟩ := (Option.any_eq_true _ _).mp answered
          exact finished i bss here ended
        cases stepped
        exact .finished sound full typed
      · split at stepped
        · cases stepped
          trivial
        · cases stepped
          exact Known.poll (s := s) sound typed _ _
    · contradiction
  · contradiction

theorem Known.pull_get_header {s t : State} (known : Known T s s.pull.phase)
    (stepped : T.pull_get_header s = some t) : Known T t t.pull.phase := by
  unfold Transfer.pull_get_header at stepped
  split at stepped
  · rename_i wait_time phase
    rw [phase] at known
    have sound : AllSound T (s.setPart 0 (s.parts 0).get_or_create) :=
      AllSound.setPart known (known 0).get_or_create
    dsimp only at stepped
    split at stepped
    · rename_i header arrived
      cases stepped
      have typed : header.data_type = T.data_type := (known 0).recorded header arrived
      apply Known.poll
      · exact sound
      · exact congrArg some typed
    · cases stepped
      exact Known.await sound _
  · contradiction

theorem Known.pull_get_status {s t : State} {i : Nat} (known : Known T s s.pull.phase)
    (stepped : T.pull_get_status s i = some t) : Known T t t.pull.phase := by
  unfold Transfer.pull_get_status at stepped
  split at stepped
  · rename_i cur_retry last_cur_pairs pull_status phase
    split at stepped
    · cases stepped
      rw [phase] at known
      have sound := (known.1 i)
      obtain ⟨all,typed,finished⟩ := known.get_or_create (i := i)
      refine ⟨all,typed,fun j bss answered ended => ?_⟩
      rw [Function.update_apply] at answered
      split at answered
      · rename_i here
        subst here
        cases answered
        have full : Complete (T.job j) (s.parts j).get_or_create := sound.complete ended
        simpa [State.setPart,State.setPhase] using full
      · exact finished j bss answered ended
    · contradiction
  · contradiction

theorem Known.get_all {s t : State} {i : Nat} (pushed : T.Pushed) (known : Known T s s.pull.phase)
    (stepped : T.get_all s i = some t) : Known T t t.pull.phase := by
  unfold Transfer.get_all at stepped
  split at stepped
  · rename_i read phase
    split at stepped
    · rename_i inside
      cases stepped
      rw [phase] at known
      obtain ⟨sound,full,typed,gotten⟩ := known
      refine ⟨sound,full,typed,fun j all answered => ?_⟩
      rw [Function.update_apply] at answered
      split at answered
      · rename_i here
        subst here
        cases answered
        exact (sound j).exact (full j inside.1) (pushed.distinct j inside.1)
      · exact gotten j all answered
    · contradiction
  · contradiction

private theorem gathered_perm {read : Nat → Option (List Pair)}
    (gotten : ∀ i all, read i = some all → all.Perm (T.job i).pairs)
    (complete : ∀ i < T.total_partitions, (read i).isSome) : (gathered read T.total_partitions).Perm T.pairs := by
  apply List.Perm.flatMap_left
  intro i member
  obtain ⟨all,here⟩ := Option.isSome_iff_exists.mp (complete i (List.mem_range.mp member))
  rw [here]
  exact gotten i all here

theorem Known.join {s t : State} {all : List Pair} (known : Known T s s.pull.phase)
    (stepped : T.join s all = some t) : Known T t t.pull.phase := by
  unfold Transfer.join at stepped
  split at stepped
  · rename_i read phase
    split at stepped
    · rename_i whole
      cases stepped
      rw [phase] at known
      obtain ⟨-,-,typed,gotten⟩ := known
      exact ⟨typed,all,whole.2.trans (gathered_perm gotten whole.1),rfl⟩
    · contradiction
  · contradiction

theorem Known.finish {s t : State} (known : Known T s s.pull.phase)
    (stepped : Transfer.finish s = some t) : Known T t t.pull.phase := by
  unfold Transfer.finish at stepped
  split at stepped
  · split at stepped
    · rename_i phase
      cases stepped
      rw [phase] at known
      exact known
    · rename_i phase
      cases stepped
      rw [phase] at known
      exact known
    · contradiction
  · contradiction

theorem Known.step (pushed : T.Pushed) {s t : State} {a : Act} (known : Known T s s.pull.phase)
    (allowed : Transfer.resumes s a = true) (stepped : T.step s a = some t) : Known T t t.pull.phase := by
  cases a with
  | part i a =>
    simp only [Transfer.step] at stepped
    split at stepped
    · rename_i inside
      obtain ⟨p,received,rfl⟩ := Option.map_eq_some_iff.mp stepped
      obtain ⟨whole,carried⟩ := (pushed.produced i inside).batches (pushed.nonempty i inside)
      exact known.setPart fun sound => sound.receive whole carried (pushed.distinct i inside) allowed received
    · contradiction
  | pull_get_header => exact known.pull_get_header stepped
  | pull_get_status i => exact known.pull_get_status stepped
  | check => exact known.check stepped
  | pull_clear_status i =>
    simp only [Transfer.step,Transfer.pull_clear_status] at stepped
    split at stepped
    · cases stepped
      exact known.setPart fun sound => ⟨sound.clear_status,id⟩
    · contradiction
  | get_all i => exact known.get_all pushed stepped
  | join all => exact known.join stepped
  | destroy i =>
    simp only [Transfer.step,Transfer.destroy] at stepped
    split at stepped
    · rename_i result left phase
      split at stepped
      · cases stepped
        rw [phase] at known
        exact known
      · contradiction
    · contradiction
  | finish => exact known.finish stepped
  | throw =>
    simp only [Transfer.step,Transfer.throw] at stepped
    split at stepped
    · contradiction
    · contradiction
    · cases stepped
      trivial

private theorem reachable_known (pushed : T.Pushed) {s : State}
    (reached : (T.system.restrict Transfer.resumes).Reachable s) : Known T s s.pull.phase := by
  apply reached.invariant
  · rintro _ rfl
    exact Known.await (fun i => Sound.init) 0
  · intro s a t known stepped
    obtain ⟨allowed,stepped⟩ := (System.restrict_step_iff _ _ _ _ _).mp stepped
    exact known.step pushed allowed stepped

end

private theorem Pull.result_eq {pull : Pull} {result : Result} (given : pull.result = some result) :
    pull.phase = .returned result := by
  unfold Pull.result at given
  split at given
  · rename_i phase
    cases given
    exact phase
  · contradiction

/-- When a pull returns a roll pair, and from then on, the stores of its partitions have exactly
the pairs that are pushed: no turn of a push or of a late PutBatch run changes that. -/
theorem pull_roll_pair (T : Transfer) (pushed : T.Pushed) {s : State}
    (reached : (T.system.restrict Transfer.resumes).Reachable s)
    (returned : s.pull.result = some .roll_pair) :
    T.data_type ≠ "object" ∧
      ∀ i < T.total_partitions, (s.parts i).transfer.db.toList.Perm (T.job i).pairs := by
  have known := reachable_known pushed reached
  rw [Pull.result_eq returned] at known
  obtain ⟨sound,full,typed⟩ := known
  exact ⟨typed,fun i inside => (sound i).exact (full i inside) (pushed.distinct i inside)⟩

/-- Two partitions, of which the first has two streams. -/
def twoPartitions : Transfer :=
  ⟨2,fun i => if i = 0 then twoStreams else { twoStreams with pairs := [([3],[9])] },1,3,3⟩

private theorem twoPartitions_pushed : twoPartitions.Pushed := by
  refine ⟨fun i inside => ?_,fun i inside => ?_,fun i inside => ?_⟩
  all_goals obtain rfl | rfl : i = 0 ∨ i = 1 := by change i < 2 at inside; omega
  · exact twoStreams_produced
  · apply Produced.of_encodable _ _ (by decide)
    intro pair member
    obtain rfl := List.mem_singleton.mp member
    exact ⟨by decide,by decide,by decide⟩
  all_goals decide

/-- The first poll comes too early, a stream is sent twice, and the status of its second run is
cleared while it goes on. -/
theorem pull_roll_pair_two : ∃ s, (twoPartitions.system.restrict Transfer.resumes).Reachable s ∧
    s.pull.result = some .roll_pair ∧ (s.parts 0).transfer.db.toList.Perm [([1],[7]),([2],[8])] := by
  have ran : ((twoPartitions.system.restrict Transfer.resumes).exec twoPartitions.init
      ([.pull_get_header] ++
        [.next_stream,.pull,.fail,.pull,.succeed,.begin 1,.process,.close].map (Act.part 0) ++
        [.next_stream,.pull,.succeed,.next_stream,.begin 0,.process,.close].map (Act.part 1) ++
        [.pull_get_header,.pull_get_status 1,.pull_get_status 0,.check] ++
        [.next_stream,.pull,.succeed,.begin 2,.process,.close,.begin 0].map (Act.part 0) ++
        [.pull_get_status 0,.pull_get_status 1,.check,.pull_clear_status 0,.pull_clear_status 1,
          .part 0 .process,.finish,.part 0 .close])).any
      (fun s => s.pull.result == some .roll_pair) = true := by decide +kernel
  obtain ⟨s,run,returned⟩ := (Option.any_eq_true _ _).mp ran
  have reached : (twoPartitions.system.restrict Transfer.resumes).Reachable s := ⟨_,_,rfl,run⟩
  have exact := (pull_roll_pair twoPartitions twoPartitions_pushed reached (beq_iff_eq.mp returned)).2
  exact ⟨s,reached,beq_iff_eq.mp returned,exact 0 (by decide)⟩

/-- The push of an object, of which the chunks are the pairs. -/
def objectJob (push : ObjectTransfer.Push) (obj : Bytes) (max_retry_cnt : Nat) (accepts : Bytes → Bool) : Job where
  data_type := "object"
  configured := push.configured
  body_bytes := push.body_bytes
  batches_per_stream := push.batches_per_stream
  max_retry_cnt := max_retry_cnt
  accepts := accepts
  pairs := (push.chunks obj).items

section
variable {push : ObjectTransfer.Push} {obj : Bytes}
open ObjectTransfer

private theorem chunks_encodable (fits : push.Fits obj) (chunked : Chunked obj push.body_bytes 0 0 (push.chunks obj)) :
    ∀ pair ∈ (push.chunks obj).items, Encodable pair := by
  intro pair member
  have key := chunked.keys pair member
  have size := chunked.sizes pair member
  have named : pair.1 ≠ [] := by
    intro empty
    rw [empty] at key
    contradiction
  have value : pair.2.length < 2147483648 := by
    rcases fits with small | small <;> omega
  exact ⟨named,by omega,value⟩

private theorem chunks_increasing (chunked : Chunked obj push.body_bytes 0 0 (push.chunks obj)) :
    ((push.chunks obj).items.map fun pair => PyBytes.fromBytes pair.1).Pairwise (· < ·) := by
  rw [chunked.numbered]
  exact List.pairwise_lt_range'

private theorem chunks_distinct (chunked : Chunked obj push.body_bytes 0 0 (push.chunks obj)) :
    ((push.chunks obj).items.map Prod.fst).Nodup := by
  have increasing := chunks_increasing chunked
  rw [List.pairwise_map] at increasing
  rw [List.Nodup,List.pairwise_map]
  exact increasing.imp fun less same => absurd (congrArg PyBytes.fromBytes same) (Nat.ne_of_lt less)

/-- A pull of an object returns the bytes that were pushed, or raises. -/
theorem pull_object (T : Transfer) (one : T.total_partitions = 1) {max_retry_cnt : Nat} {accepts : Bytes → Bool}
    (job : T.job 0 = objectJob push obj max_retry_cnt accepts) (room : 20 ≤ push.body_bytes)
    (few : obj.length / push.body_bytes + 1 < 4294967296) (fits : push.Fits obj) {s : State} {result : Result}
    (reached : (T.system.restrict Transfer.resumes).Reachable s)
    (returned : s.pull.result = some result) : result = .object obj := by
  have chunked := generate_obj_bytes_chunked obj push.body_bytes push.positive 0 0 fun _ => by
    rw [Nat.zero_add,Nat.sub_zero]
    omega
  have encodable := chunks_encodable fits chunked
  have only {i : Nat} (inside : i < T.total_partitions) : T.job i = objectJob push obj max_retry_cnt accepts := by
    obtain rfl : i = 0 := by omega
    exact job
  have pushed : T.Pushed := by
    refine ⟨fun i inside => ?_,fun i inside => ?_,fun i inside => ?_⟩
    · rw [only inside]
      exact Produced.of_encodable push.configured encodable (by simp only [objectJob]; omega)
    · rw [only inside]
      exact fun pair member => (encodable pair member).nonempty
    · rw [only inside]
      exact chunks_distinct chunked
  have known := reachable_known pushed reached
  rw [Pull.result_eq returned] at known
  cases result with
  | roll_pair =>
    have other := known.2.2
    rw [Transfer.data_type,job] at other
    exact absurd rfl other
  | object data =>
    obtain ⟨-,all,perm,rfl⟩ := known
    have pairs : T.pairs = (push.chunks obj).items := by
      rw [Transfer.pairs,one,List.range_one,List.flatMap_singleton,job]
      rfl
    rw [pairs] at perm
    have sorted := mergeSort_of_increasing (fun pair : Pair => PyBytes.fromBytes pair.1) perm (chunks_increasing chunked)
    rw [join_sorted,sorted,Push.chunks,chunked.text,List.drop_zero]

end

/-- Three bytes, in one partition. -/
def threeBytes : Transfer := ⟨1,fun _ => ⟨"object",0,64,1,1,fun _ => true,[([0,0,0,0],[1,2,3])]⟩,1,1,1⟩

private theorem threeBytes_job : threeBytes.job 0 = objectJob ⟨0,64,1,by decide⟩ [1,2,3] 1 fun _ => true := by
  have cut : ObjectTransfer.generate_obj_bytes [1,2,3] 64 (by decide) 0 0 = ⟨[([0,0,0,0],[1,2,3])],none⟩ := by
    rw [ObjectTransfer.generate_obj_bytes,ObjectTransfer.generate_obj_bytes]
    rfl
  rw [objectJob,ObjectTransfer.Push.chunks,cut]
  rfl

theorem pull_object_small : ∃ s, (threeBytes.system.restrict Transfer.resumes).Reachable s ∧
    s.pull.result = some (.object [1,2,3]) := by
  have ran : ((threeBytes.system.restrict Transfer.resumes).exec threeBytes.init
      ([.next_stream,.pull,.succeed,.begin 0,.process,.close].map (Act.part 0) ++
        [.pull_get_header,.pull_get_status 0,.check,.get_all 0,.join [([0,0,0,0],[1,2,3])],.pull_clear_status 0,
          .destroy 0,.finish])).any
      (fun s => s.pull.result.isSome) = true := by decide +kernel
  obtain ⟨s,run,returned⟩ := (Option.any_eq_true _ _).mp ran
  obtain ⟨result,given⟩ := Option.isSome_iff_exists.mp returned
  have reached : (threeBytes.system.restrict Transfer.resumes).Reachable s := ⟨_,_,rfl,run⟩
  have same := pull_object threeBytes rfl threeBytes_job (by decide) (by decide) (.inl (by decide)) reached given
  exact ⟨s,reached,given.trans (congrArg some same)⟩

end Eggroll.PullOne
