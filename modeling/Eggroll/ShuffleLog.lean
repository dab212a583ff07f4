import Eggroll.ShuffleConservation

/-! What the store tasks of a job make of the pairs that have reached them, also when LMDB does
not take some of their keys. -/
namespace Eggroll.Shuffle
open Library Format Broker BinBatch Store

/-- What the store task of an output has made of the pairs in its log: a put that LMDB refuses
raises, a merge that it refuses is only logged. -/
structure Logged (job : Job) (j : Nat) (sink : Sink) : Prop where
  accepted : job.reduce_op = none → ∀ item ∈ sink.log, job.accepts item.2.1 = true
  value : ∀ k, sink.db[k]? = reduction job.reduce_op ((job.stored j)[k]?.toList ++
    valuesOf k ((sink.log.map Prod.snd).filter fun pair => job.accepts pair.1))

private theorem refused_kept {accepts : Bytes → Bool} {reduce_op : Option (Bytes → Bytes → Bytes)} {db db' : Db} {pair : Pair}
    (refused : accepts pair.1 = false) (stored : store accepts reduce_op db pair = .ok db') : reduce_op ≠ none ∧ db' = db := by
  cases reduce_op with
  | none => simp [store,Store.put,refused] at stored
  | some op =>
    simp only [store,merge,refused,Bool.false_eq_true,if_false,Except.ok.injEq] at stored
    exact ⟨by simp,stored.symm⟩

private theorem stored_logged {job : Job} {j : Nat} {sink : Sink} {item : Nat × Pair} {db : Db} (logged : Logged job j sink)
    (stored : store job.accepts job.reduce_op sink.db item.2 = .ok db) (rest : List (Nat × Pair)) :
    Logged job j { sink with db := db, pairs := rest, log := sink.log ++ [item] } := by
  have last : ((sink.log ++ [item]).map Prod.snd).filter (fun pair => job.accepts pair.1) =
      (sink.log.map Prod.snd).filter (fun pair => job.accepts pair.1) ++
        [item.2].filter fun pair => job.accepts pair.1 := by
    rw [List.map_append,List.filter_append]
    rfl
  cases takes : job.accepts item.2.1 with
  | true =>
    refine ⟨fun plain i member => ?_,fun k => ?_⟩
    · rcases List.mem_append.mp member with old | new
      · exact logged.accepted plain i old
      · exact List.mem_singleton.mp new ▸ takes
    · rw [last,List.filter_singleton,takes,cond_true,valuesOf_append,← List.append_assoc]
      exact store_get takes stored logged.value k
  | false =>
    obtain ⟨merging,rfl⟩ := refused_kept takes stored
    refine ⟨fun plain => absurd plain merging,fun k => ?_⟩
    rw [last,List.filter_singleton,takes,cond_false,List.append_nil]
    exact logged.value k

private theorem storeStep_logged {job : Job} {j : Nat} {sink sink' : Sink} (logged : Logged job j sink)
    (stepped : job.storeStep sink = some sink') : Logged job j sink' := by
  unfold Job.storeStep at stepped
  split at stepped
  · cases stepped
    exact ⟨logged.accepted,logged.value⟩
  · split at stepped
    · rename_i item rest todo
      cases done : store job.accepts job.reduce_op sink.db item.2 with
      | error e => simp [done] at stepped
      | ok db =>
        simp only [done,Option.some.injEq] at stepped
        subst stepped
        exact stored_logged logged done rest
    · split at stepped
      · split at stepped
        · contradiction
        · cases stepped
          exact ⟨logged.accepted,logged.value⟩
      · split at stepped
        · contradiction
        · cases stepped
          exact ⟨logged.accepted,logged.value⟩
        · simp only [Option.map_eq_some_iff] at stepped
          obtain ⟨pairs,_,rfl⟩ := stepped
          exact ⟨logged.accepted,logged.value⟩

private theorem serveStep_logged {job : Job} {p j : Nat} {lane lane' : Lane} {sink sink' : Sink} (logged : Logged job j sink)
    (stepped : Job.serveStep p lane sink = some (lane',sink')) : Logged job j sink' := by
  unfold Job.serveStep at stepped
  split at stepped
  · split at stepped <;> split at stepped
    · cases stepped
      exact logged
    · contradiction
    · cases stepped
      exact logged
    · contradiction
  · simp only [Option.map_eq_some_iff,Prod.mk.injEq] at stepped
    obtain ⟨b,_,_,rfl⟩ := stepped
    exact ⟨logged.accepted,logged.value⟩
  · cases stepped
    exact ⟨logged.accepted,logged.value⟩
  · contradiction

private theorem scatterStep_sink {job : Job} {s t : State} {p : Nat} (stepped : job.scatterStep s p = some t) :
    t.sink = s.sink := by
  unfold Job.scatterStep at stepped
  simp only at stepped
  split at stepped
  · split at stepped
    · simp only [Option.map_eq_some_iff,Prod.exists] at stepped
      obtain ⟨_,_,_,_,rfl⟩ := stepped
      rfl
    · contradiction
  · split at stepped
    · simp only [Option.map_eq_some_iff] at stepped
      obtain ⟨_,_,rfl⟩ := stepped
      rfl
    · contradiction
    · simp only [Option.map_eq_some_iff,Prod.exists] at stepped
      obtain ⟨_,_,_,_,rfl⟩ := stepped
      rfl

theorem reachable_logged {job : Job} {s : State} (reached : job.system.Reachable s) (j : Nat) :
    Logged job j (s.sink j) := by
  apply reached.invariant (P := fun s => ∀ j, Logged job j (s.sink j))
  · rintro _ rfl j
    refine ⟨fun _ item member => by simp [Job.initial] at member,fun k => ?_⟩
    cases stored : (job.stored j)[k]? <;> cases job.reduce_op <;> simp [Job.initial,stored,reduction,reduceAll]
  · intro s a t logged stepped j
    cases a with
    | map p =>
      simp only [Job.system,Job.step,Option.ite_none_right_eq_some,Option.map_eq_some_iff] at stepped
      obtain ⟨_,_,_,rfl⟩ := stepped
      exact logged j
    | scatter p =>
      simp only [Job.system,Job.step,Option.ite_none_right_eq_some] at stepped
      rw [scatterStep_sink stepped.2]
      exact logged j
    | encode p i =>
      simp only [Job.system,Job.step,Option.ite_none_right_eq_some,Option.map_eq_some_iff] at stepped
      obtain ⟨_,_,_,rfl⟩ := stepped
      exact logged j
    | serve p i =>
      simp only [Job.system,Job.step,Option.ite_none_right_eq_some,Option.map_eq_some_iff,Prod.exists] at stepped
      obtain ⟨_,lane,sink,moved,rfl⟩ := stepped
      simp only [setSink_sink]
      split
      · rename_i same
        subst same
        exact serveStep_logged (logged j) moved
      · exact logged j
    | store i =>
      simp only [Job.system,Job.step,Option.ite_none_right_eq_some,Option.map_eq_some_iff] at stepped
      obtain ⟨_,sink,moved,rfl⟩ := stepped
      simp only [setSink_sink]
      split
      · rename_i same
        subst same
        exact storeStep_logged (logged j) moved
      · exact logged j

theorem Logged.value_of {job : Job} {j : Nat} {sink : Sink} (logged : Logged job j sink) (k : Bytes) :
    sink.db[k]? = reduction job.reduce_op ((job.stored j)[k]?.toList ++
      if job.accepts k then valuesOf k (sink.log.map Prod.snd) else []) := by
  rw [logged.value,valuesOf_filter k _ job.accepts]

theorem Logged.accepts_of_mem {job : Job} {j : Nat} {sink : Sink} (logged : Logged job j sink) {k : Bytes}
    (member : k ∈ sink.db) : job.accepts k = true ∨ k ∈ job.stored j := by
  by_cases takes : job.accepts k = true
  · exact .inl takes
  refine .inr ?_
  rw [Std.ExtTreeMap.mem_iff_isSome_getElem?,logged.value_of,if_neg takes,List.append_nil] at member
  rw [Std.ExtTreeMap.mem_iff_isSome_getElem?]
  cases stored : (job.stored j)[k]? with
  | some v => rfl
  | none =>
    rw [stored] at member
    cases op : job.reduce_op <;> simp [op,reduction,reduceAll] at member

end Eggroll.Shuffle
