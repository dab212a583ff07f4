import Eggroll.LockLeaks
import Eggroll.NodeProtocol

/-! No two nodes have one id and no node has two, in whatever order heartbeats and answers come:
the table gives one id to each address, and a node comes only by the id of its own address. -/
namespace Eggroll.NodeProtocol
open Library
open Program hiding call
open NodeHeartbeat hiding State Act system serve View orderly contract Standing Settled Inv Leads

/-- Ids are those that a database generates, and no id or address is in two rows. -/
structure Wf (rows : Rows) : Prop where
  positive : ∀ row ∈ rows, 0 < row.1
  ids_nodup : (ids rows).Nodup
  addresses_nodup : (rows.map Prod.snd).Nodup

def Knows (rows : Rows) (endpoint : ErEndpoint) (id : Int) : Prop := id = -1 ∨ (id,endpoint) ∈ rows

def Located (rows : Rows) (endpoint : ErEndpoint) : Option Int → Prop
  | none => ∀ id, (id,endpoint) ∉ rows
  | some id => (id,endpoint) ∈ rows

section
variable {rows rows' : Rows} {endpoint other : ErEndpoint} {id : Int}

theorem Wf.nil : Wf [] := ⟨nofun,List.nodup_nil,List.nodup_nil⟩

theorem Knows.mono (knows : Knows rows endpoint id) (more : rows ⊆ rows') : Knows rows' endpoint id :=
  knows.imp_right fun there => more there

private theorem Wf.id_unique (wf : Wf rows) (one : (id,endpoint) ∈ rows) (two : (id,other) ∈ rows) : endpoint = other :=
  congrArg Prod.snd (List.inj_on_of_nodup_map wf.ids_nodup one two rfl)

private theorem Wf.address_unique {number : Int} (wf : Wf rows) (one : (id,endpoint) ∈ rows) (two : (number,endpoint) ∈ rows) :
    id = number :=
  congrArg Prod.fst (List.inj_on_of_nodup_map wf.addresses_nodup one two rfl)

private theorem mem_idsAt : id ∈ idsAt rows endpoint ↔ (id,endpoint) ∈ rows := by
  constructor
  · intro found
    obtain ⟨⟨_,at_⟩,member,rfl⟩ := List.mem_map.mp found
    obtain ⟨there,same⟩ := List.mem_filter.mp member
    obtain rfl := of_decide_eq_true same
    exact there
  · exact fun there => List.mem_map.mpr ⟨(id,endpoint),List.mem_filter.mpr ⟨there,decide_eq_true rfl⟩,rfl⟩

theorem Wf.save (wf : Wf rows) (positive : 0 < id) (fresh : id ∉ ids rows) (absent : ∀ number, (number,endpoint) ∉ rows) :
    Wf (rows ++ [(id,endpoint)]) where
  positive row member := by
    obtain old | new := List.mem_append.mp member
    · exact wf.positive row old
    · rw [List.mem_singleton.mp new]
      exact positive
  ids_nodup := by
    rw [ids,List.map_append]
    exact wf.ids_nodup.append (List.nodup_singleton _) fun number old new => fresh ((List.mem_singleton.mp new : number = id) ▸ old)
  addresses_nodup := by
    rw [List.map_append]
    refine wf.addresses_nodup.append (List.nodup_singleton _) fun at_ old new => ?_
    obtain rfl := List.mem_singleton.mp new
    obtain ⟨⟨number,_⟩,there,rfl⟩ := List.mem_map.mp old
    exact absent number there

theorem Wf.update (wf : Wf rows) (knows : Knows rows endpoint id) (env : Env) {row : ServerNode}
    (numbered : row.serverNodeId = some id) (located : address row = endpoint) : effect rows env (.updateById row) = rows := by
  rw [effect]
  split
  · rfl
  · refine (List.map_congr_left fun r member => ?_).trans (List.map_id' rows)
    split
    · rename_i mine
      obtain rfl : id = r.1 := Option.some.inj (numbered.symm.trans mine)
      obtain new | there := knows
      · exact absurd (wf.positive r member) (by omega)
      · rw [located]
        exact Prod.ext rfl (wf.id_unique there member)
    · rfl

end

/-- What a heartbeat of a node keeps up: what is known of the node is so, and it is the one of the
key unless the node came in as a new one. -/
structure Fits (key : Int) (endpoint : ErEndpoint) (v : View) : Prop where
  wf : Wf v.rows
  knows : Knows v.rows endpoint v.own.id
  keyed : key ≠ -1 → v.own.id = key

/-- Rows are never taken away, and only who came in by the key of new nodes adds one. -/
def contract (key : Int) (endpoint : ErEndpoint) : Contract View where
  invariant := Fits key endpoint
  rely v w := w.own.id = v.own.id ∧ v.rows ⊆ w.rows ∧ (key = -1 → w.rows = v.rows)
  guarantee v w := v.rows ⊆ w.rows ∧ (key ≠ -1 → w.rows = v.rows)
  refl _ := ⟨rfl,List.Subset.refl _,fun _ => rfl⟩
  trans first second := ⟨second.1.trans first.1,List.Subset.trans first.2.1 second.2.1,
    fun new => (second.2.2 new).trans (first.2.2 new)⟩

abbrev Keeps {α : Type} (key : Int) (endpoint : ErEndpoint) (p : Change α) (A : α → View → Prop) (v : View) : Prop :=
  Does (contract key endpoint) serve p A (fun _ => True) v

section
variable {key : Int} {endpoint : ErEndpoint} {v w : View} {op : Op} {env : Env} {serverNode : NodeHeartbeat.ErServerNode}

private theorem serve_some {answer : Except Failure (Ans op)} (served : serve v op env = some (w,answer)) :
    agrees v.rows env op = true ∧ w.rows = effect v.rows env op ∧
      NodeHeartbeat.serve v.own op env = some (w.own,answer) := by
  unfold serve at served
  split at served
  · rename_i kept
    obtain ⟨⟨own,answer⟩,own_served,is⟩ := Option.map_eq_some_iff.mp served
    cases is
    exact ⟨kept,rfl,own_served⟩
  · cases served

def quiet : Op → Bool
  | .setId _ | .save _ | .updateById _ => false
  | _ => true

theorem Fits.of_same (fits : Fits key endpoint v) (id : w.own.id = v.own.id) (rows : w.rows = v.rows) :
    Fits key endpoint w := by
  refine ⟨rows ▸ fits.wf,?_,fun named => id.trans (fits.keyed named)⟩
  rw [rows,id]
  exact fits.knows

private theorem id_stable (id : Int) : (contract key endpoint).Stable fun v => v.own.id = id :=
  fun _ _ moved same => moved.1.trans same

private theorem new_stable (endpoint : ErEndpoint) (new : key = -1) (P : Rows → Prop) :
    (contract key endpoint).Stable fun v => v.own.id = -1 ∧ P v.rows := by
  intro v w moved holds
  rw [moved.1,moved.2.2 new]
  exact holds

theorem quiet_served {answer : Except Failure (Ans op)} (still : quiet op = true)
    (served : serve v op env = some (w,answer)) : w.own.id = v.own.id ∧ w.rows = v.rows := by
  obtain ⟨-,rows,own⟩ := serve_some served
  constructor
  · exact serve_id (fun id is => by rw [is] at still; cases still) own
  · rw [rows]
    cases op <;> first | rfl | cases still

private theorem quiet_keeps (op : Op) {P : View → Prop} {A : Ans op → View → Prop} (still : quiet op = true)
    (stable : (contract key endpoint).Stable P) (stables : ∀ a, (contract key endpoint).Stable (A a)) (holds : P v)
    (answers : ∀ v env w a, P v → serve v op env = some (w,.ok a) → w.own.id = v.own.id → w.rows = v.rows → A a w) :
    Keeps key endpoint (call op) A v := by
  refine Does.perform stable stables (.const _) holds fun v env w answer fits holds served => ?_
  obtain ⟨same,rows⟩ := quiet_served still served
  refine ⟨fits.of_same same rows,⟨fun row member => rows ▸ member,fun _ => rows⟩,?_⟩
  cases answer with
  | ok a => exact answers v env w a holds served same rows
  | error e => trivial

private theorem plain_keeps (op : Op) {id : Int} (still : quiet op = true) (own : v.own.id = id) :
    Keeps key endpoint (call op) (fun _ w => w.own.id = id) v :=
  quiet_keeps op still (id_stable id) (fun _ => id_stable id) own fun _ _ _ _ is _ same _ => same.trans is

theorem getId_answer {id : Int} (served : serve v .getId env = some (w,.ok id)) : v.own.id = id := by
  obtain ⟨-,-,own⟩ := serve_some served
  simp only [NodeHeartbeat.serve,Option.some.injEq,Prod.mk.injEq,Except.ok.injEq] at own
  exact own.2

private theorem getId_with {P : Int → Rows → Prop} (stable : (contract key endpoint).Stable fun v => P v.own.id v.rows)
    (holds : P v.own.id v.rows) : Keeps key endpoint (call .getId) (fun id w => w.own.id = id ∧ P w.own.id w.rows) v := by
  refine quiet_keeps .getId rfl stable (fun id => (id_stable id).and stable) holds fun v env w a holds served same rows => ?_
  rw [same,rows]
  exact ⟨getId_answer served,holds⟩

private theorem getId_keeps : Keeps key endpoint (call .getId) (fun id w => w.own.id = id) v :=
  Does.mono (getId_with (P := fun _ _ => True) (.const _) trivial) (fun _ _ _ holds => holds.1) fun _ _ => id

theorem Keeps.bind {α β : Type} {p : Change α} {f : α → Change β} {A : α → View → Prop} {B : β → View → Prop}
    (keeps : Keeps key endpoint p A v) (fits : Fits key endpoint v)
    (follows : ∀ a w, Fits key endpoint w → A a w → Keeps key endpoint (f a) B w) :
    Keeps key endpoint (p >>= f) B v :=
  Does.bind keeps fits (.const _) follows

theorem Keeps.done {α : Type} (a : α) : Keeps key endpoint (pure a) (fun _ _ => True) v :=
  Does.pure (.const _) trivial

private theorem Keeps.forget {α : Type} {p : Change α} {A : α → View → Prop} (keeps : Keeps key endpoint p A v) :
    Keeps key endpoint p (fun _ _ => True) v :=
  Does.mono keeps (fun _ _ _ _ => trivial) fun _ _ _ => trivial

private theorem registerResource_keeps (fits : Fits key endpoint v) :
    Keeps key endpoint (registerResource serverNode) (fun _ _ => True) v := by
  refine getId_keeps.bind fits fun id w fits is => ?_
  exact (plain_keeps (.listResources id) rfl is).bind fits fun _ w _ is => (plain_keeps _ rfl is).forget

private theorem updateByErNode_keeps (fits : Fits key endpoint v) (located : serverNode.endpoint = endpoint) :
    Keeps key endpoint (updateByErNode serverNode) (fun _ _ => True) v := by
  refine getId_keeps.bind fits fun id w _ is => ?_
  refine Does.perform (id_stable id) (fun _ => .const _) (.const _) is fun v env w answer fits is served => ?_
  obtain ⟨-,rows,own⟩ := serve_some served
  have same : w.own.id = v.own.id := serve_id (fun id is => by cases is) own
  have rows : w.rows = v.rows := rows.trans (fits.wf.update (is ▸ fits.knows) env rfl located)
  refine ⟨fits.of_same same rows,⟨fun row member => rows ▸ member,fun _ => rows⟩,?_⟩
  cases answer <;> trivial

private theorem updateNode_keeps (needUpdateResource : Bool) (fits : Fits key endpoint v) (located : serverNode.endpoint = endpoint) :
    Keeps key endpoint (updateNode serverNode needUpdateResource) (fun _ _ => True) v := by
  refine (updateByErNode_keeps fits located).bind fits fun _ w fits _ => ?_
  split
  · exact registerResource_keeps fits
  · exact .done _

private theorem createByErNode_fails {id : Int} (fits : Fits key endpoint v) (is : v.own.id = id) (old : id ≠ -1) :
    Keeps key endpoint (createByErNode serverNode) (fun _ _ => False) v := by
  refine (getId_with (P := fun own _ => own = id) (id_stable id) is).bind fits fun a w _ read => ?_
  obtain ⟨is,same⟩ := read
  have old : a ≠ -1 := is.symm.trans same ▸ old
  refine Does.perform (id_stable a) (fun _ => .const _) (.const _) is fun v env w answer fits is served => ?_
  obtain ⟨kept,rows,own⟩ := serve_some served
  obtain there := fits.knows.resolve_left (is ▸ old)
  rw [is] at there
  have positive := fits.wf.positive _ there
  have fails : env.fails = true := by
    by_contra works
    obtain works := Bool.eq_false_of_not_eq_true works
    simp only [agrees,works,Bool.false_or] at kept
    obtain ⟨-,same,fresh⟩ := of_decide_eq_true kept
    rw [if_pos positive] at same
    exact fresh (List.mem_map.mpr ⟨_,there,(same a rfl).symm⟩)
  simp only [NodeHeartbeat.serve,fails,if_true,Option.some.injEq,Prod.mk.injEq] at own
  obtain ⟨same,rfl⟩ := own
  have rows : w.rows = v.rows := rows.trans (if_pos fails)
  exact ⟨fits.of_same (same ▸ rfl) rows,⟨fun row member => rows ▸ member,fun _ => rows⟩,trivial⟩

private theorem createByErNode_adds (new : key = -1) (fits : Fits key endpoint v) (is : v.own.id = -1)
    (absent : ∀ number, (number,endpoint) ∉ v.rows) (located : serverNode.endpoint = endpoint) :
    Keeps key endpoint (createByErNode serverNode) (fun _ _ => True) v := by
  have still := new_stable endpoint new fun rows => ∀ number, (number,endpoint) ∉ rows
  refine (getId_with (P := fun own rows => own = -1 ∧ ∀ number, (number,endpoint) ∉ rows) still ⟨is,absent⟩).bind fits
    fun a w _ read => ?_
  obtain ⟨own,holds⟩ := read
  obtain rfl : a = -1 := own.symm.trans holds.1
  refine Does.perform still (fun _ => .const _) (.const _) holds fun v env w answer fits holds served => ?_
  obtain ⟨kept,rows,own⟩ := serve_some served
  have same : w.own.id = v.own.id := serve_id (fun id is => by cases is) own
  have wf : Wf w.rows ∧ v.rows ⊆ w.rows := by
    rw [rows,effect]
    split
    · exact ⟨fits.wf,List.Subset.refl _⟩
    · rename_i works
      simp only [agrees,Bool.eq_false_of_not_eq_true works,Bool.false_or] at kept
      obtain ⟨positive,-,fresh⟩ := of_decide_eq_true kept
      refine ⟨fits.wf.save positive fresh ?_,List.subset_append_left _ _⟩
      simp only [address,located]
      exact holds.2
  refine ⟨⟨wf.1,.inl (same.trans holds.1),fun named => absurd new named⟩,⟨wf.2,fun named => absurd new named⟩,?_⟩
  cases answer <;> trivial

private theorem getByEndPoint_keeps (new : key = -1) (fits : Fits key endpoint v) (is : v.own.id = -1) :
    Keeps key endpoint (getByEndPoint endpoint) (fun existNode w => w.own.id = -1 ∧ Located w.rows endpoint existNode) v := by
  have still (found : List Int) := new_stable endpoint new fun rows => found.Perm (idsAt rows endpoint)
  refine Keeps.bind (A := fun found w => w.own.id = -1 ∧ found.Perm (idsAt w.rows endpoint)) ?_ fits
    fun found w _ holds => ?_
  · refine quiet_keeps _ rfl (id_stable (-1)) still is fun v env w found is served same rows => ⟨same.trans is,?_⟩
    obtain ⟨kept,-,own⟩ := serve_some served
    simp only [NodeHeartbeat.serve] at own
    cases fails : env.fails with
    | true => simp [fails] at own
    | false =>
      simp only [fails,Bool.false_eq_true,if_false,Option.some.injEq,Prod.mk.injEq,Except.ok.injEq] at own
      simp only [agrees,fails,Bool.false_or] at kept
      rw [rows,← own.2]
      exact of_decide_eq_true kept
  · refine Does.pure (new_stable endpoint new fun rows => Located rows endpoint found.head?) ⟨holds.1,?_⟩
    cases found with
    | nil =>
      intro number there
      have none := holds.2.mem_iff.mpr (mem_idsAt.mpr there)
      cases none
    | cons id found => exact mem_idsAt.mp (holds.2.mem_iff.mp List.mem_cons_self)

private theorem setId_keeps (new : key = -1) {id : Int} (there : (id,endpoint) ∈ v.rows) :
    Keeps key endpoint (call (.setId id)) (fun _ _ => True) v := by
  have still : (contract key endpoint).Stable fun v => (id,endpoint) ∈ v.rows := fun v w moved holds => moved.2.1 holds
  refine Does.perform still (fun _ => .const _) (.const _) there fun v env w answer fits there served => ?_
  obtain ⟨-,rows,own⟩ := serve_some served
  simp only [NodeHeartbeat.serve,Option.some.injEq,Prod.mk.injEq] at own
  obtain ⟨own,rfl⟩ := own
  have rows : w.rows = v.rows := rows
  refine ⟨⟨rows ▸ fits.wf,.inr ?_,fun named => absurd new named⟩,⟨fun row member => rows ▸ member,fun _ => rows⟩,trivial⟩
  rw [rows,← own]
  exact there

private theorem continues_keeps {id : Int} (heartbeat : Int) (fits : Fits key endpoint v) (is : v.own.id = id) :
    Keeps key endpoint (continues id heartbeat) (fun _ w => w.own.id = id) v := by
  refine (plain_keeps (.containsKey id) rfl is).bind fits fun known w fits is => ?_
  cases known with
  | false => exact Does.pure (id_stable id) is
  | true =>
    refine (plain_keeps (.get id) rfl is).bind fits fun last w _ is => ?_
    cases last with
    | some last => exact Does.pure (id_stable id) is
    | none => exact Does.raise (.const _) trivial

private theorem getByIdFromCache_keeps {id : Int} (fits : Fits key endpoint v) (is : v.own.id = id) :
    Keeps key endpoint (getByIdFromCache id) (fun _ w => w.own.id = id) v := by
  have keeps : (call (.getFromCache id)).Sat (contract key endpoint) serve (fun _ w => w.own.id = id) v := by
    refine Sat.perform (id_stable id) (fun _ => id_stable id) is fun v env w answer fits is served => ?_
    obtain ⟨same,rows⟩ := quiet_served rfl served
    exact ⟨fits.of_same same rows,⟨fun row member => rows ▸ member,fun _ => rows⟩,same.trans is⟩
  refine Sat.andThen keeps fits fun result w fits is => ?_
  cases result with
  | ok known => exact Does.pure (id_stable id) is
  | error e => exact Does.pure (id_stable id) is

private theorem changeNode_keeps (heartbeat : Int) (fits : Fits key endpoint v) (located : serverNode.endpoint = endpoint) :
    Keeps key endpoint (changeNode serverNode heartbeat) (fun _ _ => True) v := by
  refine getId_keeps.bind fits fun id w fits is => ?_
  by_cases quits : serverNode.status ≠ "LOSS"
  · rw [if_pos quits]
    by_cases unknown : id = -1
    · rw [if_pos unknown]
      subst unknown
      have new : key = -1 := by
        by_contra named
        exact named ((fits.keyed named).symm.trans is)
      rw [located]
      refine (getByEndPoint_keeps new fits is).bind fits fun existNode w fits found => ?_
      cases existNode with
      | none => exact (createByErNode_adds new fits found.1 found.2 located).bind fits fun _ _ _ _ => .done _
      | some serverNodeId =>
        exact (setId_keeps new found.2).bind fits fun _ w fits _ => updateNode_keeps true fits located
    · rw [if_neg unknown]
      refine (continues_keeps heartbeat fits is).bind fits fun continued w fits is => ?_
      cases continued with
      | true => exact updateNode_keeps false fits located
      | false =>
        refine (getByIdFromCache_keeps fits is).bind fits fun known w fits is => ?_
        cases known with
        | true => exact updateNode_keeps true fits located
        | false => exact (createByErNode_fails fits is unknown).bind fits fun _ _ _ => False.elim
  · rw [if_neg quits]
    split
    · exact updateNode_keeps false fits located
    · exact .done _

private theorem nodeHeartbeat_keeps (heartbeat : ErNodeHeartbeat) (fits : Fits key endpoint v)
    (located : heartbeat.node.endpoint = endpoint) :
    Keeps key endpoint (nodeHeartbeat heartbeat) (fun _ _ => True) v := by
  refine (changeNode_keeps heartbeat.id fits located).bind fits fun _ w fits _ => ?_
  exact getId_keeps.bind fits fun id w _ is => (plain_keeps _ rfl is).forget

end

section
variable {T N D : Type} [DecidableEq T] {d : Deployment N D} {s s' : State T N D} {t u : T} {key : Int} {env : Env}

def view (s : State T N D) (t : T) : View := ⟨⟨s.server.ids t,s.server.heartbeats⟩,s.rows⟩

def Serves (d : Deployment N D) (s : State T N D) (t : T) (endpoint : ErEndpoint) : Prop :=
  (s.client t).map (fun process => d.endpoint process.1) = some endpoint

/-- What is true of a thread, by where it stands. It may give `unLock` another key than it has
given to `lock` only when it came in by the key of new nodes. -/
def Standing (d : Deployment N D) (s : State T N D) (t : T) : NodeHeartbeat.Place → Prop
  | .idle => s.server.cache.pc t = .idle
  | .locking key heartbeat => (heartbeat.node.id = key ∧ s.server.ids t = key) ∧
    Serves d s t heartbeat.node.endpoint ∧ Knows s.rows heartbeat.node.endpoint key ∧
    (((s.server.cache.pc t).locking key ∧ s.server.cache.thrown t = none) ∨
      (s.server.cache.pc t = .idle ∧ (s.server.cache.thrown t = none → LockUtils.Holds s.server.cache t key)))
  | .inside key body => (s.server.cache.pc t = .idle ∧ LockUtils.Holds s.server.cache t key) ∧
    ∃ endpoint, Serves d s t endpoint ∧ Fits key endpoint (view s t) ∧ Keeps key endpoint body (fun _ _ => True) (view s t)
  | .unlocking key => (∃ endpoint, Serves d s t endpoint ∧ Knows s.rows endpoint (s.server.ids t)) ∧
    (s.server.cache.pc t = .idle ∨ ∃ given, (key ≠ -1 → given = key) ∧
      (s.server.cache.pc t = .find given ∨ ∃ lock, s.server.cache.pc t = .release given lock))

/-- The ids that a process has and is about to have. -/
structure Informed (rows : Rows) (endpoint : ErEndpoint) (m : NodeManager) : Prop where
  own : Knows rows endpoint m.serverNodeId
  learned : ∀ id ∈ m.learned, Knows rows endpoint id

omit [DecidableEq T] in
theorem Informed.mono {rows rows' : Rows} {endpoint : ErEndpoint} {m : NodeManager} (informed : Informed rows endpoint m)
    (more : rows ⊆ rows') : Informed rows' endpoint m :=
  ⟨informed.own.mono more,fun id member => (informed.learned id member).mono more⟩

/-- What nodes, files and messages say of ids, the table has. -/
structure Told (d : Deployment N D) (s : State T N D) : Prop where
  wf : Wf s.rows
  nodes : ∀ n, Informed s.rows (d.endpoint n) (s.nodes n)
  files : ∀ dir endpoint id, s.files dir = some (endpoint,id) → Knows s.rows endpoint id
  requests : ∀ r ∈ s.requests, r.heartbeat.node.endpoint = d.endpoint r.node ∧
    Knows s.rows (d.endpoint r.node) r.heartbeat.node.id
  responses : ∀ r ∈ s.responses, Knows s.rows (d.endpoint r.node) r.id
  watched : s.watched ⊆ s.rows

structure Inv (d : Deployment N D) (s : State T N D) : Prop where
  told : Told d s
  cache : LockUtils.Guarded s.server.cache
  settled : ∀ t, Standing d s t (s.server.place t)

/-- What a step of one thread leaves to the others. -/
structure Apart (t : T) (s s' : State T N D) : Prop where
  place : ∀ u, u ≠ t → s'.server.place u = s.server.place u
  client : ∀ u, u ≠ t → s'.client u = s.client u
  ids : ∀ u, u ≠ t → s'.server.ids u = s.server.ids u
  pc : ∀ u, u ≠ t → s'.server.cache.pc u = s.server.cache.pc u
  thrown : ∀ u, u ≠ t → s'.server.cache.thrown u = s.server.cache.thrown u
  holds : ∀ u key, u ≠ t → LockUtils.Holds s.server.cache u key → LockUtils.Holds s'.server.cache u key
  more : s.rows ⊆ s'.rows
  /-- Only in the body of a new node. -/
  adds : s'.rows = s.rows ∨ ∃ body, s.server.place t = .inside (-1) body

omit [DecidableEq T] in
theorem Standing.others {place : NodeHeartbeat.Place} (stands : Standing d s u place) (apart : Apart t s s') (other : u ≠ t)
    (wf : Wf s'.rows) (still : ∀ body, place = .inside (-1) body → s'.rows = s.rows) : Standing d s' u place := by
  have ids := apart.ids u other
  have pc := apart.pc u other
  have serves {endpoint : ErEndpoint} (serves : Serves d s u endpoint) : Serves d s' u endpoint := by
    rw [Serves,apart.client u other]
    exact serves
  cases place with
  | idle => exact pc.trans stands
  | locking key heartbeat =>
    obtain ⟨⟨node,is⟩,from_,knows,rest⟩ := stands
    refine ⟨⟨node,ids.trans is⟩,serves from_,knows.mono apart.more,?_⟩
    rw [pc,apart.thrown u other]
    exact rest.imp_right fun came => ⟨came.1,fun works => apart.holds u key other (came.2 works)⟩
  | inside key body =>
    obtain ⟨⟨idle,holds⟩,endpoint,from_,fits,keeps⟩ := stands
    refine ⟨⟨pc.trans idle,apart.holds u key other holds⟩,endpoint,serves from_,⟨wf,?_,fun named => ?_⟩,?_⟩
    · change Knows s'.rows endpoint (s'.server.ids u)
      rw [ids]
      exact fits.knows.mono apart.more
    · exact ids.trans (fits.keyed named)
    · refine Sat.stable keeps ⟨ids,apart.more,?_⟩
      rintro rfl
      exact still body rfl
  | unlocking key =>
    obtain ⟨⟨endpoint,from_,knows⟩,rest⟩ := stands
    refine ⟨⟨endpoint,serves from_,?_⟩,pc.symm ▸ rest⟩
    rw [ids]
    exact knows.mono apart.more

omit [DecidableEq T] in
theorem Inv.step (inv : Inv d s) (apart : Apart t s s') (told : Told d s') (cache : LockUtils.Guarded s'.server.cache)
    (own : Standing d s' t (s'.server.place t)) : Inv d s' := by
  refine ⟨told,cache,fun u => ?_⟩
  by_cases other : u = t
  · exact other ▸ own
  rw [apart.place u other]
  refine (inv.settled u).others apart other told.wf fun body here => ?_
  obtain same | ⟨body',there⟩ := apart.adds
  · exact same
  -- two threads in the body of a new node
  have mine := inv.settled u
  have his := inv.settled t
  rw [here] at mine
  rw [there] at his
  exact absurd (mine.1.2.exclusive his.1.2) other

omit [DecidableEq T] in
theorem Told.grow (told : Told d s) (wf : Wf s'.rows) (more : s.rows ⊆ s'.rows) (nodes : s'.nodes = s.nodes)
    (files : s'.files = s.files) (requests : s'.requests = s.requests) (watched : s'.watched = s.watched)
    (responses : ∀ r ∈ s'.responses, r ∈ s.responses ∨ Knows s'.rows (d.endpoint r.node) r.id) : Told d s' where
  wf := wf
  nodes n := nodes ▸ (told.nodes n).mono more
  files dir endpoint id found := (told.files dir endpoint id (files ▸ found)).mono more
  requests r member := by
    obtain ⟨located,knows⟩ := told.requests r (requests ▸ member)
    exact ⟨located,knows.mono more⟩
  responses r member := (responses r member).elim (fun old => (told.responses r old).mono more) id
  watched := watched ▸ List.Subset.trans told.watched more

abbrev Kept (d : Deployment N D) (s s' : State T N D) : Prop := Inv d s' ∧ s.rows ⊆ s'.rows

private theorem receive_kept [DecidableEq N] (inv : Inv d s) {request : Request N} {i : Nat} (found : s.requests[i]? = some request)
    {cache : LockUtils.State T Int} (called : s.server.cache.call t (.check request.heartbeat.node.id) = some cache) :
    Kept d s { s with
      server := { s.server with
        cache := cache
        place := Function.update s.server.place t (.locking request.heartbeat.node.id request.heartbeat)
        ids := Function.update s.server.ids t request.heartbeat.node.id }
      client := Function.update s.client t (some (request.node,request.life))
      requests := s.requests.eraseIdx i } := by
  obtain ⟨located,knows⟩ := inv.told.requests request (List.mem_of_getElem? found)
  obtain ⟨guarded,holds⟩ := inv.cache.call rfl rfl called
  obtain ⟨pc,-,thrown⟩ := LockUtils.call_own called
  refine ⟨inv.step (t := t) ⟨fun _ other => Function.update_of_ne other _ _,fun _ other => Function.update_of_ne other _ _,
    fun _ other => Function.update_of_ne other _ _,fun _ other => (LockUtils.call_others other called).1,
    fun _ other => (LockUtils.call_others other called).2.2,fun u key _ => holds u key,List.Subset.refl _,.inl rfl⟩
    ⟨inv.told.wf,inv.told.nodes,inv.told.files,fun r member => inv.told.requests r (List.mem_of_mem_eraseIdx member),
      inv.told.responses,inv.told.watched⟩ guarded ?_,List.Subset.refl _⟩
  dsimp only
  rw [Function.update_self]
  refine ⟨⟨rfl,Function.update_self _ _ _⟩,?_,located ▸ knows,.inl ⟨?_,thrown⟩⟩
  · simp [Serves,located]
  · rw [pc]
    exact rfl

private theorem locking_kept (inv : Inv d s) {heartbeat : ErNodeHeartbeat} (place : s.server.place t = .locking key heartbeat)
    (stepped : s.advance t env = some s') : Kept d s s' := by
  have settled := inv.settled t
  rw [place] at settled
  obtain ⟨⟨node,ids⟩,from_,knows,rest⟩ := settled
  simp only [State.advance,place,NodeHeartbeat.State.advance] at stepped
  split at stepped
  case isTrue idle =>
    cases stepped
    refine ⟨inv.step (t := t) ⟨fun _ other => Function.update_of_ne other _ _,fun _ _ => rfl,fun _ _ => rfl,fun _ _ => rfl,
      fun _ _ => rfl,fun _ _ _ => id,List.Subset.refl _,.inl rfl⟩
      (inv.told.grow inv.told.wf (List.Subset.refl _) rfl rfl rfl rfl fun _ => .inl) inv.cache ?_,List.Subset.refl _⟩
    rw [NodeHeartbeat.goto_place]
    obtain ⟨locks,-⟩ | ⟨-,came⟩ := rest
    · rw [idle] at locks
      exact locks.elim
    · split
      · rename_i works
        have fits : Fits key heartbeat.node.endpoint (view s t) := by
          refine ⟨inv.told.wf,?_,fun _ => ids⟩
          rw [← ids] at knows
          exact knows
        exact ⟨⟨idle,came works⟩,_,from_,fits,nodeHeartbeat_keeps heartbeat fits rfl⟩
      · exact idle
  case isFalse busy =>
    obtain ⟨_,advances,rfl⟩ := Option.map_eq_some_iff.mp stepped
    obtain ⟨cache,advanced,rfl⟩ := Option.map_eq_some_iff.mp advances
    have moved := inv.cache.advance advanced
    refine ⟨inv.step (t := t) ⟨fun _ _ => rfl,fun _ _ => rfl,fun _ _ => rfl,
      fun _ other => (LockUtils.advance_others other advanced).1,fun _ other => (LockUtils.advance_others other advanced).2.2,
      moved.others,List.Subset.refl _,.inl rfl⟩
      (inv.told.grow inv.told.wf (List.Subset.refl _) rfl rfl rfl rfl fun _ => .inl) moved.guarded ?_,List.Subset.refl _⟩
    dsimp only
    rw [place]
    refine ⟨⟨node,ids⟩,from_,knows,?_⟩
    obtain ⟨locks,works⟩ | ⟨idle,-⟩ := rest
    · obtain ⟨pc,-,thrown⟩ | ⟨pc,-,-⟩ | ⟨pc,thrown,-⟩ := LockUtils.advance_locking locks advanced
      · exact .inl ⟨pc,thrown.trans works⟩
      · exact .inr ⟨pc,moved.comes key locks pc⟩
      · exact .inr ⟨pc,fun works => absurd works thrown⟩
    · exact absurd idle busy

private theorem inside_kept (inv : Inv d s) {body : Change Unit} (place : s.server.place t = .inside key body)
    (stepped : s.advance t env = some s') : Kept d s s' := by
  have settled := inv.settled t
  rw [place] at settled
  obtain ⟨⟨idle,holds⟩,endpoint,from_,fits,keeps⟩ := settled
  cases body with
  | call op next =>
    simp only [State.advance,place,NodeHeartbeat.State.advance,Option.ite_none_right_eq_some] at stepped
    obtain ⟨kept,stepped⟩ := stepped
    obtain ⟨_,advances,rfl⟩ := Option.map_eq_some_iff.mp stepped
    obtain ⟨⟨own,answer⟩,served,rfl⟩ := Option.map_eq_some_iff.mp advances
    obtain ⟨fits',⟨more,adds⟩,rest⟩ := keeps (view s t) ((contract key endpoint).refl _) fits env
      ⟨own,effect s.rows env op⟩ answer (by simp only [serve,view,kept,if_true,served,Option.map_some])
    have ids : Function.update s.server.ids t own.id t = own.id := Function.update_self _ _ _
    refine ⟨inv.step (t := t) ⟨fun _ other => Function.update_of_ne other _ _,fun _ _ => rfl,
      fun _ other => Function.update_of_ne other _ _,fun _ _ => rfl,fun _ _ => rfl,fun _ _ _ => id,more,?_⟩
      (inv.told.grow fits'.wf more rfl rfl rfl rfl fun _ => .inl) inv.cache ?_,more⟩
    · by_cases new : key = -1
      · exact .inr ⟨_,new ▸ place⟩
      · exact .inl (adds new)
    · dsimp only [NodeHeartbeat.State.goto]
      rw [Function.update_self]
      refine ⟨⟨idle,holds⟩,endpoint,from_,fits'.of_same ids rfl,?_⟩
      exact Sat.stable rest ⟨ids,List.Subset.refl _,fun _ => rfl⟩
  | ended result =>
    simp only [State.advance,place,NodeHeartbeat.State.advance] at stepped
    obtain ⟨_,advances,rfl⟩ := Option.map_eq_some_iff.mp stepped
    obtain ⟨_,unlocks,rfl⟩ := Option.map_eq_some_iff.mp advances
    obtain ⟨cache,called,rfl⟩ := Option.map_eq_some_iff.mp unlocks
    obtain ⟨guarded,keeps_locks⟩ := inv.cache.call rfl rfl called
    refine ⟨inv.step (t := t) ⟨fun _ other => Function.update_of_ne other _ _,fun _ _ => rfl,fun _ _ => rfl,
      fun _ other => (LockUtils.call_others other called).1,fun _ other => (LockUtils.call_others other called).2.2,
      fun u key _ => keeps_locks u key,List.Subset.refl _,.inl rfl⟩
      (inv.told.grow inv.told.wf (List.Subset.refl _) rfl rfl rfl rfl fun _ => .inl) guarded ?_,List.Subset.refl _⟩
    dsimp only [NodeHeartbeat.State.goto]
    rw [Function.update_self]
    exact ⟨⟨endpoint,from_,fits.knows⟩,.inr ⟨_,fits.keyed,.inl (LockUtils.call_own called).1⟩⟩

omit [DecidableEq T] in
private theorem respond_knows {endpoint : ErEndpoint} (from_ : Serves d s t endpoint) (knows : Knows s.rows endpoint (s.server.ids t))
    {r : Response N} (member : r ∈ s.respond t) : Knows s.rows (d.endpoint r.node) r.id := by
  unfold State.respond at member
  unfold Serves at from_
  cases client : s.client t with
  | none =>
    rw [client] at member
    cases member
  | some process =>
    rw [client] at member from_
    dsimp only at member
    split at member
    · obtain rfl := List.mem_singleton.mp member
      rw [Option.map_some,Option.some.injEq] at from_
      exact from_ ▸ knows
    · cases member

private theorem unlocking_kept (inv : Inv d s) (place : s.server.place t = .unlocking key) (stepped : s.advance t env = some s') :
    Kept d s s' := by
  have settled := inv.settled t
  rw [place] at settled
  obtain ⟨⟨endpoint,from_,knows⟩,rest⟩ := settled
  simp only [State.advance,place,NodeHeartbeat.State.advance] at stepped
  obtain ⟨server,advances,rfl⟩ := Option.map_eq_some_iff.mp stepped
  have told {server : NodeHeartbeat.State T} : Told d { s with
      server := server
      responses := s.responses ++ if s.server.cache.pc t = .idle then s.respond t else [] } := by
    refine inv.told.grow inv.told.wf (List.Subset.refl _) rfl rfl rfl rfl fun r member => ?_
    refine (List.mem_append.mp member).imp_right fun new => ?_
    split at new
    · exact respond_knows from_ knows new
    · cases new
  split at advances
  case isTrue idle =>
    cases advances
    refine ⟨inv.step (t := t) ⟨fun _ other => Function.update_of_ne other _ _,fun _ _ => rfl,fun _ _ => rfl,fun _ _ => rfl,
      fun _ _ => rfl,fun _ _ _ => id,List.Subset.refl _,.inl rfl⟩ told inv.cache ?_,List.Subset.refl _⟩
    dsimp only [NodeHeartbeat.State.goto]
    rw [Function.update_self]
    exact idle
  case isFalse busy =>
    obtain ⟨cache,advanced,rfl⟩ := Option.map_eq_some_iff.mp advances
    have moved := inv.cache.advance advanced
    refine ⟨inv.step (t := t) ⟨fun _ _ => rfl,fun _ _ => rfl,fun _ _ => rfl,
      fun _ other => (LockUtils.advance_others other advanced).1,fun _ other => (LockUtils.advance_others other advanced).2.2,
      moved.others,List.Subset.refl _,.inl rfl⟩ told moved.guarded ?_,List.Subset.refl _⟩
    dsimp only
    rw [place]
    refine ⟨⟨endpoint,from_,knows⟩,?_⟩
    obtain idle | ⟨given,same,finds | ⟨lock,releases⟩⟩ := rest
    · exact absurd idle busy
    · obtain idle | ⟨lock,releases⟩ := LockUtils.advance_finds finds advanced
      · exact .inl idle
      · exact .inr ⟨given,same,.inr ⟨lock,releases⟩⟩
    · exact .inl (LockUtils.advance_release releases advanced).1

private theorem acquire_waits (inv : Inv d s) {lock : Nat} (unused : busy s.server key t = false)
    (at_lock : s.server.cache.pc t = .acquire key lock) : key = -1 ∧ waits s.server t = true := by
  have settled := inv.settled t
  unfold busy at unused
  cases place : s.server.place t with
  | idle =>
    rw [place,Standing,at_lock] at settled
    cases settled
  | locking k heartbeat =>
    rw [place] at settled unused
    obtain ⟨-,-,-,⟨locks,-⟩ | ⟨idle,-⟩⟩ := settled
    · rw [at_lock] at locks
      obtain rfl : key = k := locks
      simpa using unused
    · rw [at_lock] at idle
      cases idle
  | inside k body =>
    rw [place] at settled
    cases at_lock.symm.trans settled.1.1
  | unlocking k =>
    rw [place] at settled
    obtain ⟨-,idle | ⟨given,-,finds | ⟨lock',releases⟩⟩⟩ := settled
    · cases at_lock.symm.trans idle
    · cases at_lock.symm.trans finds
    · cases at_lock.symm.trans releases

private theorem release_busy (inv : Inv d s) {lock : Nat} (at_unlock : s.server.cache.pc t = .release (-1) lock) :
    busy s.server (-1) t = true := by
  have settled := inv.settled t
  unfold busy
  cases place : s.server.place t with
  | idle =>
    rw [place,Standing,at_unlock] at settled
    cases settled
  | locking k heartbeat =>
    rw [place] at settled
    obtain ⟨-,-,-,⟨locks,-⟩ | ⟨idle,-⟩⟩ := settled
    · rw [at_unlock] at locks
      exact locks.elim
    · cases at_unlock.symm.trans idle
  | inside k body =>
    rw [place] at settled
    cases at_unlock.symm.trans settled.1.1
  | unlocking k =>
    rw [place] at settled
    obtain ⟨-,idle | ⟨given,same,finds | ⟨lock',releases⟩⟩⟩ := settled
    · cases at_unlock.symm.trans idle
    · cases at_unlock.symm.trans finds
    · cases at_unlock.symm.trans releases
      by_contra other
      have other : k ≠ -1 := fun is => other (decide_eq_true is)
      exact other (same other).symm

private theorem drop_kept (inv : Inv d s) (unused : ∀ t, busy s.server key t = false) :
    Kept d s { s with server := { s.server with cache := s.server.cache.drop key } } := by
  have told : Told d { s with server := { s.server with cache := s.server.cache.drop key } } :=
    inv.told.grow inv.told.wf (List.Subset.refl _) rfl rfl rfl rfl fun _ => .inl
  refine ⟨⟨told,inv.cache.drop (fun t lock at_lock => ?_) fun t lock => ?_,fun t => ?_⟩,List.Subset.refl _⟩
  · obtain ⟨-,waiting⟩ := acquire_waits inv (unused t) at_lock
    rw [waits,at_lock] at waiting
    obtain ⟨u,owns,other⟩ := (Option.any_eq_true _ _).mp waiting
    exact ⟨u,of_decide_eq_true other,owns⟩
  · refine or_iff_not_imp_left.mpr fun releases u at_lock => ?_
    obtain ⟨rfl,-⟩ := acquire_waits inv (unused u) at_lock
    exact absurd (release_busy inv (not_not.mp releases)) (by simp [unused t])
  · have settled := inv.settled t
    have free := unused t
    unfold busy at free
    change Standing d _ t (s.server.place t)
    cases place : s.server.place t with
    | idle =>
      rw [place] at settled
      exact settled
    | locking k heartbeat =>
      rw [place] at settled free
      obtain ⟨node,from_,knows,locks | ⟨idle,came⟩⟩ := settled
      · exact ⟨node,from_,knows,.inl locks⟩
      · have away : k ≠ key := by simpa [waits,idle] using free
        exact ⟨node,from_,knows,.inr ⟨idle,fun works => (came works).drop away⟩⟩
    | inside k body =>
      rw [place] at settled free
      obtain ⟨⟨idle,holds⟩,rest⟩ := settled
      exact ⟨⟨idle,holds.drop (of_decide_eq_false free)⟩,rest⟩
    | unlocking k =>
      rw [place] at settled
      exact settled

private theorem markLoss_rows {rows : Rows} {row : Int × ErEndpoint} (wf : Wf rows) (there : row ∈ rows) :
    markLoss rows row = rows := wf.update (.inr there) {} rfl rfl

omit [DecidableEq T] in
theorem init_inv [DecidableEq N] [DecidableEq D] : Inv d (State.init d : State T N D) where
  told := ⟨.nil,fun _ => ⟨.inl rfl,nofun⟩,nofun,nofun,nofun,List.Subset.refl _⟩
  cache := .init
  settled _ := rfl

end

section
variable {T N D : Type} [DecidableEq T] [DecidableEq N] [DecidableEq D] {d : Deployment N D} {s s' : State T N D}

omit [DecidableEq T] [DecidableEq D] in
theorem Inv.setNode (inv : Inv d s) {n : N} {m : NodeManager} (informed : Informed s.rows (d.endpoint n) m) :
    Inv d (s.setNode n m) := by
  refine ⟨⟨inv.told.wf,fun n' => ?_,inv.told.files,inv.told.requests,inv.told.responses,inv.told.watched⟩,inv.cache,inv.settled⟩
  simp only [State.setNode,Function.update_apply]
  split
  · rename_i same
    exact same ▸ informed
  · exact inv.told.nodes n'

theorem load_knows {rows : Rows} {endpoint : ErEndpoint} {file : MetaFile}
    (found : ∀ own id, file = some (own,id) → Knows rows own id) :
    Knows rows endpoint (loadNodeManagerMetaFromFile endpoint file) := by
  unfold loadNodeManagerMetaFromFile
  split
  · rename_i own id
    split
    · rename_i same
      exact same ▸ found own id rfl
    · exact .inl rfl
  · exact .inl rfl

private theorem protocol_kept [Fintype T] (inv : Inv d s) {act : Act T N} (ordered : orderly s act = true)
    (stepped : (protocol d).step s act = some s') : Kept d s s' := by
  have same : s.rows ⊆ s.rows := List.Subset.refl _
  -- a process that changes nothing of its ids
  have still (n : N) {m : NodeManager} (own : m.serverNodeId = (s.nodes n).serverNodeId)
      (learned : m.learned = (s.nodes n).learned) : Informed s.rows (d.endpoint n) m :=
    ⟨own ▸ (inv.told.nodes n).own,learned ▸ (inv.told.nodes n).learned⟩
  cases act with
  | run n =>
    cases stepped
    exact ⟨inv.setNode ⟨load_knows (inv.told.files _),nofun⟩,same⟩
  | heartBeatThread n =>
    cases stepped
    exact ⟨inv.setNode (still n rfl rfl),same⟩
  | look n =>
    simp only [protocol] at stepped
    split at stepped
    · cases stepped
    · cases stepped
      exact ⟨inv.setNode (still n rfl rfl),same⟩
  | send n thread resources =>
    obtain ⟨status,-,rfl⟩ := Option.map_eq_some_iff.mp stepped
    have inv' := inv.setNode (n := n) (m := { s.nodes n with looked := (s.nodes n).looked.eraseIdx thread }) (still n rfl rfl)
    refine ⟨⟨⟨inv.told.wf,inv'.told.nodes,inv.told.files,fun r member => ?_,inv.told.responses,inv.told.watched⟩,
      inv.cache,inv.settled⟩,same⟩
    obtain old | new := List.mem_append.mp member
    · exact inv.told.requests r old
    · obtain rfl := List.mem_singleton.mp new
      exact ⟨rfl,(inv.told.nodes n).own⟩
  | shutdownHook n =>
    cases stepped
    exact ⟨inv.setNode (still n rfl rfl),same⟩
  | answer i =>
    obtain ⟨response,found,stepped⟩ := Option.bind_eq_some_iff.mp stepped
    simp only at stepped
    split at stepped
    · cases stepped
      have informed : Informed s.rows (d.endpoint response.node) ((s.nodes response.node).answered response.id) := by
        have before := inv.told.nodes response.node
        unfold NodeManager.answered
        split
        · refine ⟨before.own,fun id member => ?_⟩
          obtain old | new := List.mem_append.mp member
          · exact before.learned id old
          · rw [List.mem_singleton.mp new]
            exact inv.told.responses response (List.mem_of_getElem? found)
        · exact before
      have inv' := inv.setNode informed
      exact ⟨⟨⟨inv.told.wf,inv'.told.nodes,inv.told.files,inv.told.requests,
        fun r member => inv.told.responses r (List.mem_of_mem_eraseIdx member),inv.told.watched⟩,inv.cache,inv.settled⟩,same⟩
    · cases stepped
  | learn n thread =>
    obtain ⟨id,found,rfl⟩ := Option.map_eq_some_iff.mp stepped
    have before := inv.told.nodes n
    exact ⟨inv.setNode ⟨before.learned id (List.mem_of_getElem? found),
      fun id member => before.learned id (List.mem_of_mem_eraseIdx member)⟩,same⟩
  | refresh n written =>
    simp only [protocol] at stepped
    split at stepped
    · cases stepped
    · cases stepped
      have inv' := inv.setNode (n := n) (m := { s.nodes n with told := (s.nodes n).told - 1, status := "HEALTHY" })
        (still n rfl rfl)
      refine ⟨⟨⟨inv.told.wf,inv'.told.nodes,fun dir own id found => ?_,inv.told.requests,inv.told.responses,inv.told.watched⟩,
        inv.cache,inv.settled⟩,same⟩
      simp only [Function.update_apply] at found
      split at found
      · cases written with
        | whole =>
          cases found
          exact (inv.told.nodes n).own
        | broken => cases found
        | kept => exact inv.told.files _ own id found
      · exact inv.told.files dir own id found
  | receive t i =>
    obtain ⟨request,found,stepped⟩ := Option.bind_eq_some_iff.mp stepped
    obtain ⟨server,received,rfl⟩ := Option.map_eq_some_iff.mp stepped
    simp only [NodeHeartbeat.system] at received
    split at received
    · obtain ⟨_,locks,rfl⟩ := Option.map_eq_some_iff.mp received
      obtain ⟨cache,called,rfl⟩ := Option.map_eq_some_iff.mp locks
      exact receive_kept inv found called
    · cases received
  | advance t env =>
    cases place : s.server.place t with
    | idle => simp [protocol,State.advance,place,NodeHeartbeat.State.advance] at stepped
    | locking key heartbeat => exact locking_kept inv place stepped
    | inside key body => exact inside_kept inv place stepped
    | unlocking key => exact unlocking_kept inv place stepped
  | evict key =>
    obtain ⟨server,evicted,rfl⟩ := Option.map_eq_some_iff.mp stepped
    obtain ⟨cache,dropped,rfl⟩ := Option.map_eq_some_iff.mp evicted
    simp only [LockUtils.system,Option.ite_none_right_eq_some,Option.some.injEq] at dropped
    obtain ⟨-,rfl⟩ := dropped
    exact drop_kept inv (of_decide_eq_true ordered)
  | expire key =>
    cases stepped
    exact drop_kept inv (of_decide_eq_true ordered)
  | restart =>
    cases stepped
    exact ⟨⟨⟨inv.told.wf,inv.told.nodes,inv.told.files,inv.told.requests,inv.told.responses,List.nil_subset _⟩,
      .init,fun _ => rfl⟩,same⟩
  | readNodes =>
    cases stepped
    exact ⟨⟨⟨inv.told.wf,inv.told.nodes,inv.told.files,inv.told.requests,inv.told.responses,same⟩,inv.cache,inv.settled⟩,same⟩
  | markLoss i =>
    obtain ⟨row,found,rfl⟩ := Option.map_eq_some_iff.mp stepped
    rw [markLoss_rows inv.told.wf (inv.told.watched (List.mem_of_getElem? found))]
    exact ⟨inv,same⟩

private theorem reachable_inv [Fintype T] (reached : ((protocol d).restrict orderly).Reachable s) : Inv d s := by
  refine reached.invariant (fun s started => ?_) fun s act s' inv stepped => ?_
  · rw [show s = .init d from started]
    exact init_inv
  · obtain ⟨ordered,stepped⟩ := (System.restrict_step_iff _ _ _ _ _).mp stepped
    exact (protocol_kept inv ordered stepped).1

private theorem run_rows [Fintype T] (inv : Inv d s) {labels : List (Act T N)}
    (run : ((protocol d).restrict orderly).Run s labels s') : s.rows ⊆ s'.rows := by
  refine (run.invariant (P := fun s' => Kept d s s') (fun s₁ act s₂ kept stepped => ?_) ⟨inv,List.Subset.refl _⟩).2
  obtain ⟨ordered,stepped⟩ := (System.restrict_step_iff _ _ _ _ _).mp stepped
  obtain ⟨inv',more⟩ := protocol_kept kept.1 ordered stepped
  exact ⟨inv',List.Subset.trans kept.2 more⟩

/-- Where the cache drops no lock that a heartbeat uses: whatever ids two nodes have taken, at
whatever times, they are the same if and only if the nodes have one address. -/
theorem node_identity [Fintype T] (reached : ((protocol d).restrict orderly).Reachable s) {labels : List (Act T N)}
    (run : ((protocol d).restrict orderly).Run s labels s') {n m : N} (first : (s.nodes n).serverNodeId ≠ -1)
    (second : (s'.nodes m).serverNodeId ≠ -1) :
    (s.nodes n).serverNodeId = (s'.nodes m).serverNodeId ↔ d.endpoint n = d.endpoint m := by
  have inv := reachable_inv reached
  have inv' := reachable_inv (reached.extend run)
  have early := run_rows inv run ((inv.told.nodes n).own.resolve_left first)
  have late := (inv'.told.nodes m).own.resolve_left second
  constructor
  · intro same
    rw [same] at early
    exact inv'.told.wf.id_unique early late
  · intro same
    rw [same] at early
    exact inv'.told.wf.address_unique early late

end

/-- They share a directory. -/
def twoNodes : Deployment Bool Unit := ⟨fun n => ⟨"host",if n then 4671 else 4670⟩,fun _ => ()⟩

def beats (n : Bool) (env : Env) (steps : ℕ) : List (Act Bool Bool) :=
  [.heartBeatThread n,.look n,.send n 0 [],.receive false 0] ++ List.replicate steps (.advance false env)

def registers (n : Bool) (id : Int) (steps : ℕ) : List (Act Bool Bool) :=
  beats n { generated := id } steps ++ .answer 0 :: beats n { found := [id] } 17 ++ [.answer 0,.learn n 0]

/-- The first node registers and learns its id. Then it starts again, and the second does the same. -/
theorem node_identity_restart : ∃ s s' : State Bool Bool Unit, ((protocol twoNodes).restrict orderly).Reachable s ∧
    (∃ labels, ((protocol twoNodes).restrict orderly).Run s labels s') ∧ (s'.nodes false).life = 1 ∧
    ∀ m, (s.nodes false).serverNodeId = (s'.nodes m).serverNodeId ↔ twoNodes.endpoint false = twoNodes.endpoint m := by
  have ran : (((protocol twoNodes).restrict orderly).exec (State.init twoNodes) (registers false 1 18 ++ [.refresh false .whole])).any
      (fun s => decide ((s.nodes false).serverNodeId = 1) &&
        (((protocol twoNodes).restrict orderly).exec s (.run false :: .run true :: registers true 2 14)).any (fun s' =>
          decide ((s'.nodes false).life = 1 ∧ (s'.nodes false).serverNodeId = 1 ∧ (s'.nodes true).serverNodeId = 2))) = true := by
    decide +kernel
  obtain ⟨s,run,found⟩ := (Option.any_eq_true _ _).mp ran
  simp only [Bool.and_eq_true,decide_eq_true_eq] at found
  obtain ⟨known,later⟩ := found
  obtain ⟨s',run',found'⟩ := (Option.any_eq_true _ _).mp later
  obtain ⟨life,one,two⟩ := of_decide_eq_true found'
  have reached : ((protocol twoNodes).restrict orderly).Reachable s := ⟨_,_,rfl,run⟩
  refine ⟨s,s',reached,⟨_,run'⟩,life,fun m => node_identity reached run' (by rw [known]; decide) ?_⟩
  cases m with
  | false =>
    rw [one]
    decide
  | true =>
    rw [two]
    decide

end Eggroll.NodeProtocol
