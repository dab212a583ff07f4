import Eggroll.RollSite

/-! What a rollsite push delivers. Every packet, of every attempt, carries a batch of the
partition under that batch's own number, so a status that has as many numbers as batches
has them all; what it has counted is in the store. -/
namespace Eggroll.RollSite
open Library Format BatchStream BinBatch

def Genuine (job : Job) (packet : Packet) : Prop :=
  ∃ i batch, job.bin_batches[i]? = some batch ∧ packet.data = batch.getD [] ∧
    packet.header.batch_seq = i + 1 ∧
    (packet.header.stage = FINISH_STATUS → packet.header.total_batches = (job.bin_batches.length : Int))

def Placed (job : Job) (s : Sender) : Prop :=
  match s.phase with
  | .streams => 0 < job.max_retry_cnt →
      s.helper.rs_header.batch_seq = s.pushed ∧ job.bin_batches.drop s.pushed = s.upcoming.batches
  | .pushing stream cur_retry _ packets =>
      0 < job.max_retry_cnt ∧ stream ≠ [] ∧ job.bin_batches.drop s.pushed = stream ++ s.upcoming.batches ∧
      (packets = .fresh → cur_retry = 0 → s.helper.rs_header.batch_seq = s.pushed) ∧
      (packets ≠ .fresh → ∃ front, stream = front ++ packets.left stream ∧
        s.helper.rs_header.batch_seq = s.pushed + front.length)
  | _ => True

structure SenderSound (job : Job) (s : Sender) : Prop where
  flag : s.helper.finish_partition = true → s.upcoming.batches = []
  marked : s.helper.rs_header.stage = FINISH_STATUS →
    s.helper.rs_header.total_batches = (job.bin_batches.length : Int)
  first : s.pushed = 0 → s.helper.last_batch_seq = 0
  saved : s.saved = true → s.helper.last_batch_seq = s.pushed
  placed : Placed job s

def State.visible (s : State) : Store.Db := (s.run.map PutBatchRun.txn).getD s.db

/-- A status, what the store holds with and without the transaction under way. -/
structure ReceiverSound (job : Job) (bss : BatchStreamStatus) (txn db : Store.Db) : Prop where
  tally : Tally job.bin_batches (fun batch => (inflight batch).length) bss.batch_seq_to_pair_counter
  stored : ∀ i batch, job.bin_batches[i]? = some batch → i + 1 ∈ bss.batch_seq_to_pair_counter →
    ∀ pair ∈ inflight batch, Has txn pair
  done : bss.stage = "done" → bss.total_batches = (job.bin_batches.length : Int)
  finished : bss.stream_finish_event = true → bss.stage = "done" ∧
    bss.batch_seq_to_pair_counter.keys.length = job.bin_batches.length ∧ ∀ pair ∈ job.pairs, Has db pair

structure Invariant (job : Job) (s : State) : Prop where
  sender : SenderSound job s.sender
  genuine : ∀ call, ∀ packet ∈ s.sent call, Genuine job packet
  receiver : ReceiverSound job s.status s.visible s.db

section
variable {job : Job} (whole : ∀ batch ∈ job.bin_batches, Whole batch)

theorem SenderSound.init (db : Store.Db) : SenderSound job (job.init db).sender where
  flag ended := by
    change (Upcoming.of job.bin_batches).isNone = true at ended
    change (Upcoming.of job.bin_batches).batches = []
    rw [Option.isNone_iff_eq_none.mp ended]
    rfl
  marked last := by simp [Job.init,BatchStreamHelper.create,FINISH_STATUS] at last
  first _ := rfl
  saved early := by simp [Job.init] at early
  placed _ := ⟨rfl,(Upcoming.batches_of job.bin_batches).symm⟩

theorem SenderSound.call {s : State} {stream : List (Option Bytes)} {cur_retry : Nat} {stuck : Phase}
    (sound : SenderSound job { s.sender with phase := .raised }) (nonempty : stream ≠ [])
    (ahead : 0 < job.max_retry_cnt → job.bin_batches.drop s.sender.pushed = stream ++ s.sender.upcoming.batches)
    (start : 0 < job.max_retry_cnt → cur_retry = 0 → s.sender.helper.rs_header.batch_seq = s.sender.pushed)
    (out : ¬ cur_retry < job.max_retry_cnt → Placed job { s.sender with phase := stuck }) :
    SenderSound job (job.call s stream cur_retry stuck).sender := by
  unfold Job.call
  split
  · rename_i again
    have some_retry : 0 < job.max_retry_cnt := by omega
    exact ⟨sound.flag,sound.marked,sound.first,sound.saved,
      some_retry,nonempty,ahead some_retry,fun _ => start some_retry,fun begun => absurd rfl begun⟩
  · rename_i last
    exact ⟨sound.flag,sound.marked,sound.first,sound.saved,out last⟩

theorem SenderSound.next_stream {s t : State} (sound : SenderSound job s.sender)
    (stepped : job.next_stream s = some t) : SenderSound job t.sender := by
  have placed := sound.placed
  unfold Job.next_stream at stepped
  cases phase : s.sender.phase with
  | streams =>
    rw [Placed,phase] at placed
    simp only [phase] at stepped
    split at stepped
    · cases stepped
      exact ⟨sound.flag,sound.marked,sound.first,sound.saved,trivial⟩
    · obtain ⟨⟨peek,rest⟩,up,called⟩ := Option.map_eq_some_iff.mp stepped
      subst called
      obtain ⟨nonempty,split⟩ := chunk_batch_stream_split (job.batches_per_stream - 1) peek rest
      have all : s.sender.upcoming.batches = peek :: rest := by rw [up]; rfl
      apply SenderSound.call
      · refine ⟨fun ended => ?_,sound.marked,sound.first,sound.saved,trivial⟩
        have none_left := Option.isNone_iff_eq_none.mp ended
        change Upcoming.batches (chunk_batch_stream _ _ _).2 = []
        rw [none_left]
        rfl
      · exact nonempty
      · intro retries
        rw [(placed retries).2,all]
        exact split.symm
      · exact fun retries _ => (placed retries).1
      · exact fun never retries => absurd retries never
  | _ => simp [phase] at stepped

theorem SenderSound.succeed {s t : State} (sound : SenderSound job s.sender)
    (stepped : Job.succeed s = some t) : SenderSound job t.sender := by
  have placed := sound.placed
  unfold Job.succeed at stepped
  cases phase : s.sender.phase with
  | pushing stream cur_retry call packets =>
    rw [Placed,phase] at placed
    obtain ⟨_,nonempty,ahead,_,walked⟩ := placed
    cases packets with
    | exhausted =>
      simp only [phase,Option.some.injEq] at stepped
      subst stepped
      obtain ⟨front,split,number⟩ := walked (by simp)
      rw [Generator.left,List.append_nil] at split
      subst split
      refine ⟨sound.flag,sound.marked,fun zero => ?_,fun early => by simp at early,fun _ => ⟨number,?_⟩⟩
      · have := List.length_pos_iff.mpr nonempty
        simp only at zero
        omega
      · change job.bin_batches.drop (s.sender.pushed + stream.length) = s.sender.upcoming.batches
        rw [← List.drop_drop,ahead,List.drop_left]
    | _ => simp [phase] at stepped
  | _ => simp [phase] at stepped

theorem SenderSound.fail {s t : State} (sound : SenderSound job s.sender)
    (stepped : job.fail s = some t) : SenderSound job t.sender := by
  have placed := sound.placed
  unfold Job.fail at stepped
  cases phase : s.sender.phase with
  | pushing stream cur_retry call packets =>
    rw [Placed,phase] at placed
    simp only [phase,Option.some.injEq] at stepped
    subst stepped
    obtain ⟨_,nonempty,ahead,_⟩ := placed
    exact SenderSound.call ⟨sound.flag,sound.marked,sound.first,sound.saved,trivial⟩ nonempty
      (fun _ => ahead) (fun _ zero => by omega) (fun _ => trivial)
  | _ => simp [phase] at stepped

theorem SenderSound.opened {s : State} (sound : SenderSound job s.sender)
    (allowed : Job.resumes s .pull = true) {stream : List (Option Bytes)} {cur_retry call : Nat}
    {packets : Generator} (phase : s.sender.phase = .pushing stream cur_retry call packets) :
    (∃ front, stream = front ++ packets.left stream ∧
      (packets.opened s.sender.helper cur_retry).rs_header.batch_seq = s.sender.pushed + front.length) ∧
    (s.sender.pushed = 0 → (packets.opened s.sender.helper cur_retry).last_batch_seq = 0) ∧
    ((s.sender.saved || (packets == .fresh && cur_retry == 0)) = true →
      (packets.opened s.sender.helper cur_retry).last_batch_seq = s.sender.pushed) := by
  have placed := sound.placed
  rw [Placed,phase] at placed
  obtain ⟨_,_,_,start,walked⟩ := placed
  by_cases fresh : packets = .fresh
  · subst fresh
    rw [Job.resumes,phase] at allowed
    by_cases initial : cur_retry = 0
    · subst initial
      have number := start rfl rfl
      simp only [Generator.opened,BatchStreamHelper.rewind,if_true]
      exact ⟨⟨[],rfl,number⟩,fun zero => number.trans zero,fun _ => number⟩
    · have known : s.sender.helper.last_batch_seq = s.sender.pushed := by
        simp only [Bool.or_eq_true,beq_iff_eq,initial,false_or] at allowed
        rcases allowed with saved | zero
        · exact sound.saved saved
        · rw [sound.first zero,zero]
      simp only [Generator.opened,BatchStreamHelper.rewind,if_neg initial]
      exact ⟨⟨[],rfl,known⟩,fun zero => known.trans zero,fun _ => known⟩
  · have same : packets.opened s.sender.helper cur_retry = s.sender.helper := by
      cases packets with
      | fresh => exact absurd rfl fresh
      | _ => rfl
    rw [same]
    refine ⟨walked fresh,sound.first,fun known => sound.saved ?_⟩
    simpa [fresh] using known

include whole in
theorem SenderSound.pull {s t : State} (sound : SenderSound job s.sender)
    (allowed : Job.resumes s .pull = true) (stepped : Job.pull s = some t) :
    SenderSound job t.sender ∧ ∃ call packet, Genuine job packet ∧
      t.sent = Function.update s.sent call (s.sent call ++ [packet]) ∧
      t.recorder = s.recorder ∧ t.db = s.db ∧ t.run = s.run := by
  have placed := sound.placed
  unfold Job.pull at stepped
  cases phase : s.sender.phase with
  | pushing stream cur_retry call packets =>
    rw [Placed,phase] at placed
    obtain ⟨retries,nonempty,ahead,-,-⟩ := placed
    obtain ⟨⟨front,split,number⟩,first,saved⟩ := sound.opened allowed phase
    cases left : packets.left stream with
    | nil =>
      cases packets with
      | fresh => exact absurd left nonempty
      | looping => simp [Generator.left] at left
      | exhausted => simp [phase,Generator.next] at stepped
    | cons batch after =>
      rw [left] at split
      have position : job.bin_batches[s.sender.pushed + front.length]? = some batch := by
        rw [← List.getElem?_drop,ahead,split]
        simp
      obtain ⟨group,-,rfl⟩ := whole batch (List.mem_of_getElem? position)
      obtain ⟨g',pulled,begun,rest⟩ :=
        Generator.next_packet s.sender.helper cur_retry left (show truthy (some (batchOf group)) = true from rfl)
      obtain ⟨flag,stage,totals⟩ := Generator.opened_header s.sender.helper cur_retry packets
      generalize packets.opened s.sender.helper cur_retry = opened at *
      have total : s.sender.helper.finish_partition = true → after = [] →
          s.sender.pushed + front.length + 1 = job.bin_batches.length := by
        intro ended final
        have length := congrArg List.length ahead
        rw [sound.flag ended,split,final] at length
        simp only [List.length_drop,List.length_append,List.length_cons,List.length_nil] at length
        omega
      have marked (h' : BatchStreamHelper) (same : h' = if after = [] then opened.count_up.mark_finish
          else opened.count_up) : h'.rs_header.stage = FINISH_STATUS →
          h'.rs_header.total_batches = (job.bin_batches.length : Int) := by
        subst same
        split
        · rename_i final
          unfold BatchStreamHelper.mark_finish
          split
          · rename_i ended
            intro _
            have := total (flag ▸ ended) final
            simp only [BatchStreamHelper.count_up,number]
            omega
          · intro last
            exact totals.trans (sound.marked (stage.symm.trans last))
        · intro last
          exact totals.trans (sound.marked (stage.symm.trans last))
      have kept (h' : BatchStreamHelper) (same : h' = if after = [] then opened.count_up.mark_finish
          else opened.count_up) : h'.finish_partition = s.sender.helper.finish_partition ∧
          h'.last_batch_seq = opened.last_batch_seq ∧
          h'.rs_header.batch_seq = s.sender.pushed + front.length + 1 := by
        subst same
        split
        · obtain ⟨a,b,c⟩ := BatchStreamHelper.mark_finish_numbers opened.count_up
          exact ⟨a.trans flag,b,c.trans (congrArg (· + 1) number)⟩
        · exact ⟨flag,rfl,congrArg (· + 1) number⟩
      simp only [phase,pulled,Option.map_some,Option.some.injEq] at stepped
      generalize made : (if after = [] then opened.count_up.mark_finish else opened.count_up) = h' at *
      subst stepped
      obtain ⟨flag',last',number'⟩ := kept h' rfl
      refine ⟨⟨fun ended => sound.flag (flag'.symm.trans ended),marked h' rfl,
        fun zero => last'.trans (first zero),fun known => last'.trans (saved known),?_⟩,
        call,_,⟨_,_,position,rfl,number',marked h' rfl⟩,rfl,rfl,rfl,rfl⟩
      refine ⟨retries,nonempty,ahead,fun again => absurd again begun,fun _ =>
        ⟨front ++ [some (batchOf group)],?_,?_⟩⟩
      · rw [rest,split,List.append_assoc,List.singleton_append]
      · rw [List.length_append]
        exact number'
  | _ => simp [phase] at stepped

theorem sender_frame (job : Job) {s t : State}
    (stepped : job.next_stream s = some t ∨ Job.succeed s = some t ∨ job.fail s = some t) :
    t.sent = s.sent ∧ t.recorder = s.recorder ∧ t.db = s.db ∧ t.run = s.run := by
  have called (s : State) (stream : List (Option Bytes)) (cur_retry : Nat) (stuck : Phase) :
      (job.call s stream cur_retry stuck).sent = s.sent ∧
      (job.call s stream cur_retry stuck).recorder = s.recorder ∧
      (job.call s stream cur_retry stuck).db = s.db ∧ (job.call s stream cur_retry stuck).run = s.run := by
    unfold Job.call
    split <;> exact ⟨rfl,rfl,rfl,rfl⟩
  rcases stepped with stepped | stepped | stepped
  · unfold Job.next_stream at stepped
    split at stepped
    · split at stepped
      · cases stepped
        exact ⟨rfl,rfl,rfl,rfl⟩
      · obtain ⟨⟨peek,rest⟩,-,rfl⟩ := Option.map_eq_some_iff.mp stepped
        exact called _ _ _ _
    · cases stepped
  · unfold Job.succeed at stepped
    split at stepped
    · cases stepped
      exact ⟨rfl,rfl,rfl,rfl⟩
    · cases stepped
  · unfold Job.fail at stepped
    split at stepped
    · cases stepped
      exact called _ _ _ _
    · cases stepped

variable {bss : BatchStreamStatus} {txn db : Store.Db}

theorem ReceiverSound.create : ReceiverSound job BatchStreamStatus.create db db where
  tally := Tally.empty
  stored _ _ _ member := absurd member (AList.notMem_empty _)
  done early := by simp [BatchStreamStatus.create] at early
  finished early := by simp [BatchStreamStatus.create] at early

section
variable (carried : job.bin_batches.flatMap inflight = job.pairs)
include carried

theorem carried_inside {i : ℕ} {batch : Option Bytes} (position : job.bin_batches[i]? = some batch)
    {pair : Pair} (member : pair ∈ inflight batch) : pair ∈ job.pairs := by
  rw [← carried]
  exact List.mem_flatMap.mpr ⟨batch,List.mem_of_getElem? position,member⟩

private theorem ReceiverSound.all_stored (sound : ReceiverSound job bss txn db)
    (full : bss.batch_seq_to_pair_counter.keys.length = job.bin_batches.length) :
    ∀ pair ∈ job.pairs, Has txn pair := by
  intro pair member
  rw [← carried] at member
  obtain ⟨batch,inside,carries⟩ := List.mem_flatMap.mp member
  obtain ⟨i,position⟩ := List.mem_iff_getElem?.mp inside
  obtain ⟨within,-⟩ := List.getElem?_eq_some_iff.mp position
  exact sound.stored i batch position ((sound.tally.received full (i + 1)).mpr (by omega)) pair carries

theorem ReceiverSound.commit (sound : ReceiverSound job bss txn db) : ReceiverSound job bss txn txn :=
  ⟨sound.tally,sound.stored,sound.done,fun event =>
    have ⟨stage,full,_⟩ := sound.finished event
    ⟨stage,full,sound.all_stored carried full⟩⟩

theorem ReceiverSound.check_finish (sound : ReceiverSound job bss txn txn) :
    ReceiverSound job bss.check_finish txn txn := by
  unfold BatchStreamStatus.check_finish
  split
  · rename_i complete
    have full : bss.batch_seq_to_pair_counter.keys.length = job.bin_batches.length := by
      have := sound.done complete.1
      omega
    exact ⟨sound.tally,sound.stored,sound.done,fun _ => ⟨complete.1,full,sound.all_stored carried full⟩⟩
  · exact sound

include whole in
theorem ReceiverSound.packet (distinct : (job.pairs.map Prod.fst).Nodup)
    (sound : ReceiverSound job bss txn db) {packet : Packet} (genuine : Genuine job packet) :
    ReceiverSound job bss (put_batch job.accepts bss txn packet).1 db ∧
      ∀ bss', (put_batch job.accepts bss txn packet).2 = some bss' →
        ReceiverSound job bss' (put_batch job.accepts bss txn packet).1 db := by
  obtain ⟨i,batch,position,data,number,last⟩ := genuine
  obtain ⟨group,encodable,rfl⟩ := whole batch (List.mem_of_getElem? position)
  have carries : inflight (some (batchOf group)) = group := by
    rw [inflight,decoded_batchOf group encodable,Option.getD_some]
  have within (pair : Pair) (member : pair ∈ group) : pair ∈ job.pairs :=
    carried_inside carried position (carries.symm ▸ member)
  obtain ⟨text,counted⟩ := put_batch_whole job.accepts bss txn encodable data
  rw [text]
  have kept : ∀ j other, job.bin_batches[j]? = some other → j + 1 ∈ bss.batch_seq_to_pair_counter →
      ∀ pair ∈ inflight other, Has (putPairs job.accepts group txn).1 pair :=
    fun j other found member pair inside => putPairs_kept distinct (carried_inside carried found inside)
      group within (sound.stored j other found member pair inside)
  refine ⟨⟨sound.tally,kept,sound.done,sound.finished⟩,fun bss' result => ?_⟩
  obtain ⟨accepted,counter,event,stage⟩ := counted bss' result
  obtain ⟨count,put⟩ := putPairs_put distinct group within accepted
  rw [number,count] at counter
  have tally : Tally job.bin_batches (fun batch => (inflight batch).length)
      bss'.batch_seq_to_pair_counter := by
    have more := sound.tally.insert position
    rw [carries] at more
    exact counter ▸ more
  have done : bss'.stage = "done" → bss'.total_batches = (job.bin_batches.length : Int) := by
    intro ended
    split at stage
    · rename_i final
      exact stage.2.trans (last final)
    · exact stage.2.trans (sound.done (stage.1.symm.trans ended))
  refine ⟨tally,fun j other found member pair inside => ?_,done,fun set => ?_⟩
  · rw [counter,AList.mem_insert] at member
    rcases member with now | before
    · obtain rfl : j = i := by omega
      obtain rfl := Option.some.inj (found.symm.trans position)
      exact put pair (carries ▸ inside)
    · exact kept j other found before pair inside
  · obtain ⟨ended,full,all⟩ := sound.finished (event.symm.trans set)
    have known : i + 1 ∈ bss.batch_seq_to_pair_counter := by
      obtain ⟨within,-⟩ := List.getElem?_eq_some_iff.mp position
      exact (sound.tally.received full (i + 1)).mpr (by omega)
    refine ⟨?_,?_,all⟩
    · split at stage
      · exact stage.1
      · exact stage.1.trans ended
    · rw [counter,AList.keys_insert,List.length_cons,List.length_erase_of_mem (AList.mem_keys.mp known),full]
      obtain ⟨within,-⟩ := List.getElem?_eq_some_iff.mp position
      omega

end

include whole in
theorem Invariant.step (carried : job.bin_batches.flatMap inflight = job.pairs)
    (distinct : (job.pairs.map Prod.fst).Nodup) {s t : State} {a : Act} (inv : Invariant job s)
    (allowed : Job.resumes s a = true) (stepped : job.step s a = some t) : Invariant job t := by
  have framed (sender : SenderSound job t.sender) (same : t.sent = s.sent ∧ t.recorder = s.recorder ∧
      t.db = s.db ∧ t.run = s.run) : Invariant job t := by
    obtain ⟨sent,recorder,db,run⟩ := same
    refine ⟨sender,sent ▸ inv.genuine,?_⟩
    rw [State.status,State.visible,recorder,db,run]
    exact inv.receiver
  cases a with
  | next_stream => exact framed (inv.sender.next_stream stepped) (sender_frame job (.inl stepped))
  | succeed =>
    exact framed (inv.sender.succeed stepped) (sender_frame job (.inr (.inl stepped)))
  | fail => exact framed (inv.sender.fail stepped) (sender_frame job (.inr (.inr stepped)))
  | pull =>
    obtain ⟨sender,call,packet,genuine,sent,recorder,db,run⟩ := inv.sender.pull whole allowed stepped
    refine ⟨sender,fun other p member => ?_,?_⟩
    · rw [sent,Function.update_apply] at member
      split at member
      · rcases List.mem_append.mp member with old | new
        · exact inv.genuine call p old
        · exact List.mem_singleton.mp new ▸ genuine
      · exact inv.genuine other p member
    · rw [State.status,State.visible,recorder,db,run]
      exact inv.receiver
  | begin call =>
    simp only [Job.step,Job.begin] at stepped
    split at stepped
    · rename_i free
      cases stepped
      have sound := inv.receiver
      rw [State.visible,Option.isNone_iff_eq_none.mp free.1] at sound
      exact ⟨inv.sender,inv.genuine,sound⟩
    · cases stepped
  | process =>
    obtain ⟨run,running,stepped⟩ := Option.bind_eq_some_iff.mp stepped
    obtain ⟨packet,delivered,stepped⟩ := Option.bind_eq_some_iff.mp stepped
    have sound := inv.receiver
    have seen : s.visible = run.txn := by rw [State.visible,running]; rfl
    rw [seen] at sound
    obtain ⟨raised,counted⟩ := sound.packet whole carried distinct
      (inv.genuine run.call packet (List.mem_of_getElem? delivered))
    rcases result : put_batch job.accepts s.status run.txn packet with ⟨txn,_ | bss⟩
    all_goals
      simp only [result,Option.some.injEq] at stepped raised counted
      subst stepped
    · exact ⟨inv.sender,inv.genuine,raised.commit carried⟩
    · exact ⟨inv.sender,inv.genuine,counted bss rfl⟩
  | close =>
    obtain ⟨run,running,rfl⟩ := Option.map_eq_some_iff.mp stepped
    have sound := inv.receiver
    rw [State.visible,running] at sound
    exact ⟨inv.sender,inv.genuine,(sound.commit carried).check_finish carried⟩
  | abort =>
    obtain ⟨run,running,rfl⟩ := Option.map_eq_some_iff.mp stepped
    have sound := inv.receiver
    rw [State.visible,running] at sound
    exact ⟨inv.sender,inv.genuine,sound.commit carried⟩

end

def Job.Produced (job : Job) : Prop := BinBatch.Produced job.configured job.body_bytes job.pairs

/-- Where no retry starts over an attempt that never began, a finished status means that
every batch was received, every pair is in the store, and the pairs are all counted. -/
theorem push_delivers (job : Job) (produced : job.Produced)
    (nonempty : ∀ pair ∈ job.pairs, pair.1 ≠ []) (distinct : (job.pairs.map Prod.fst).Nodup)
    {s : State} (reached : (job.system.restrict Job.resumes).Reachable s)
    (finished : s.wait_finish.is_finished = true) :
    s.wait_finish.total_batches = (job.bin_batches.length : Int) ∧
      (∀ number : ℕ, number ∈ s.wait_finish.batch_seq_to_pair_counter ↔
        1 ≤ number ∧ (number : Int) ≤ s.wait_finish.total_batches) ∧
      (∀ pair ∈ job.pairs, s.db[pair.1]? = some pair.2) ∧
      s.wait_finish.total_pairs = job.pairs.length := by
  have whole : ∀ batch ∈ job.bin_batches, Whole batch := (produced.batches nonempty).1
  have carried : job.bin_batches.flatMap inflight = job.pairs := (produced.batches nonempty).2
  have inv : Invariant job s := by
    apply reached.invariant
    · rintro _ ⟨db,rfl⟩
      exact ⟨SenderSound.init db,fun _ _ member => by simp [Job.init] at member,ReceiverSound.create⟩
    · intro s a t inv stepped
      obtain ⟨allowed,stepped⟩ := (System.restrict_step_iff _ _ _ _ _).mp stepped
      exact inv.step whole carried distinct allowed stepped
  obtain ⟨ended,full,stored⟩ := inv.receiver.finished finished
  have total := inv.receiver.done ended
  refine ⟨total,fun number => ?_,stored,?_⟩
  · rw [show s.wait_finish.total_batches = s.status.total_batches from rfl,total,Nat.cast_le]
    exact inv.receiver.tally.received full number
  · calc s.wait_finish.total_pairs = (job.bin_batches.map (fun batch => (inflight batch).length)).sum :=
        inv.receiver.tally.total full
      _ = (job.bin_batches.flatMap inflight).length := List.length_flatMap.symm
      _ = job.pairs.length := by rw [carried]

/-- Two pairs in two batches, each its own stream. -/
def twoStreams : Job :=
  ⟨"rollpair",0,26,1,2,fun _ => true,[([1],[7]),([2],[8])]⟩

theorem twoStreams_produced : twoStreams.Produced := by
  apply Produced.of_encodable _ _ (by decide)
  intro pair member
  rcases List.mem_pair.mp member with rfl | rfl <;> exact ⟨by decide,by decide,by decide⟩

/-- A retried first stream, and runs in the other order. -/
theorem push_delivers_retried : ∃ s, (twoStreams.system.restrict Job.resumes).Reachable s ∧
    s.wait_finish.is_finished = true ∧ s.wait_finish.total_pairs = 2 ∧ s.db[([1] : Bytes)]? = some [7] := by
  have ran : ((twoStreams.system.restrict Job.resumes).exec (twoStreams.init ∅)
      [.next_stream,.pull,.fail,.pull,.succeed,.next_stream,.pull,.succeed,.next_stream,
        .begin 2,.process,.close,.begin 0,.process,.abort,.begin 1,.process,.close]).any
      (fun s => s.wait_finish.is_finished) = true := by decide +kernel
  obtain ⟨s,run,finished⟩ := (Option.any_eq_true _ _).mp ran
  have reached : (twoStreams.system.restrict Job.resumes).Reachable s := ⟨_,_,⟨∅,rfl⟩,run⟩
  obtain ⟨-,-,stored,total⟩ := push_delivers twoStreams twoStreams_produced (by decide) (by decide) reached finished
  exact ⟨s,reached,finished,total,stored ([1],[7]) (by decide)⟩

/-- The second stream's first attempt fails before a packet is pulled: its retry starts
from the first stream's numbers, and the status is finished without the first stream. -/
theorem push_loses_stream : twoStreams.Produced ∧ (∀ pair ∈ twoStreams.pairs, pair.1 ≠ []) ∧
    (twoStreams.pairs.map Prod.fst).Nodup ∧ ∃ s, twoStreams.system.Reachable s ∧
      s.wait_finish.is_finished = true ∧ s.wait_finish.total_pairs = 1 ∧
      ([1],[7]) ∈ twoStreams.pairs ∧ s.db[([1] : Bytes)]? = none := by
  refine ⟨twoStreams_produced,by decide,by decide,?_⟩
  have ran : (twoStreams.system.exec (twoStreams.init ∅)
      [.next_stream,.pull,.succeed,.next_stream,.fail,.pull,.succeed,.begin 2,.process,.close]).any
      (fun s => s.wait_finish.is_finished && s.wait_finish.total_pairs == 1 &&
        s.db[([1] : Bytes)]? == none) = true := by decide +kernel
  obtain ⟨s,run,found⟩ := (Option.any_eq_true _ _).mp ran
  simp only [Bool.and_eq_true,beq_iff_eq] at found
  exact ⟨s,⟨_,_,⟨∅,rfl⟩,run⟩,found.1.1,found.1.2,by decide,found.2⟩

end Eggroll.RollSite
