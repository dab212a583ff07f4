import Mathlib.Data.Int.CardIntervalMod
import Eggroll.Library.Grouping
import Eggroll.Library.Traverse
import Eggroll.MetaModel
import Eggroll.StoreConsistency

/-! How a client's session routes partitions to eggs (`_session.py`): the eggs of each
server node, the rank that a partition gets there, and the store that carries the eggs. -/
namespace Eggroll.SessionRouting
open Library MetaModel

inductive Raised
  | keyError
  | indexError
  | zeroDivisionError
  | attributeError
  | valueError
deriving Repr, DecidableEq

structure ErPartition where
  id : Int
  store_locator : StoreCrud.ErStoreLocator
  processor : Option MetaModel.ErProcessor
  rank_in_node : Option Int := some (-1)

structure ErStore where
  store_locator : StoreCrud.ErStoreLocator
  partitions : List ErPartition
  options : StoreCrud.Options

/-- `self._rolls` and `self._eggs`. -/
structure ErSession where
  rolls : List MetaModel.ErProcessor
  eggs : List (Int × List MetaModel.ErProcessor)

def EGG_PAIR : String := "egg_pair"
def ROLL_PAIR_MASTER : String := "roll_pair_master"

def is_egg_pair (self : MetaModel.ErProcessor) : Bool := self.processor_type = EGG_PAIR

def is_roll_pair_master (self : MetaModel.ErProcessor) : Bool := self.processor_type = ROLL_PAIR_MASTER

namespace ErSession

/-- The loop of the constructor over the processors that the cluster manager has given. -/
def add (self : ErSession) : List MetaModel.ErProcessor → Except Raised ErSession
  | [] => .ok self
  | processor :: rest =>
    if is_egg_pair processor then
      add { self with eggs := addTo processor.server_node_id processor self.eggs } rest
    else if is_roll_pair_master processor then add { self with rolls := self.rolls ++ [processor] } rest
    else .error .valueError

def init (processors : List MetaModel.ErProcessor) : Except Raised ErSession := add ⟨[],[]⟩ processors

def _calculate_rank_in_node (partition_id cluster_node_count processor_count_of_node : Int) : Except Raised Int :=
  if cluster_node_count = 0 ∨ processor_count_of_node = 0 then .error .zeroDivisionError
  else .ok ((partition_id.fdiv cluster_node_count).fmod processor_count_of_node)

/-- `self._eggs[server_node_id]`. -/
def eggsOf (self : ErSession) (server_node_id : Int) : Except Raised (List MetaModel.ErProcessor) :=
  match self.eggs.lookup server_node_id with
  | some eggs => .ok eggs
  | none => .error .keyError

def get_rank_in_node (self : ErSession) (partition_id server_node_id : Int) : Except Raised Int := do
  let eggs ← self.eggsOf server_node_id
  _calculate_rank_in_node partition_id self.eggs.length eggs.length

def item (eggs : List MetaModel.ErProcessor) (index : Int) : Except Raised MetaModel.ErProcessor :=
  match if index < 0 then (eggs.length + index).toNat? else index.toNat? with
  | some i => match eggs[i]? with
    | some egg => .ok egg
    | none => .error .indexError
  | none => .error .indexError

def route_to_egg_by_rank (self : ErSession) (server_node_id rank_in_node : Int) : Except Raised MetaModel.ErProcessor := do
  let eggs ← self.eggsOf server_node_id
  let result ← item eggs rank_in_node
  match result.command_endpoint with
  | none => .error .attributeError
  | some endpoint => if endpoint.host = "" ∨ endpoint.port ≤ 0 then .error .valueError else .ok result

/-- The attribute of a processor that may be `None`. -/
def serverNodeId (partition : ErPartition) : Except Raised Int :=
  match partition.processor with
  | none => .error .attributeError
  | some processor => .ok processor.server_node_id

def rankOf (self : ErSession) (partition : ErPartition) : Except Raised Int := do
  let server_node_id ← serverNodeId partition
  match partition.rank_in_node with
  | none => self.get_rank_in_node partition.id server_node_id
  | some rank => if rank < 0 then self.get_rank_in_node partition.id server_node_id else .ok rank

def route_to_egg (self : ErSession) (partition : ErPartition) : Except Raised MetaModel.ErProcessor := do
  let server_node_id ← serverNodeId partition
  let rank_in_node ← self.rankOf partition
  self.route_to_egg_by_rank server_node_id rank_in_node

/-- One round of the loop of `populate_processor`. -/
def populate (self : ErSession) (p : ErPartition) : Except Raised ErPartition := do
  let server_node_id ← serverNodeId p
  let rank_in_node ← self.get_rank_in_node p.id server_node_id
  let processor ← self.route_to_egg_by_rank server_node_id rank_in_node
  return ⟨p.id,p.store_locator,some processor,some rank_in_node⟩

def populate_processor (self : ErSession) (store : ErStore) : Except Raised ErStore := do
  let populated_partitions ← store.partitions.mapM self.populate
  return ⟨store.store_locator,populated_partitions,store.options⟩

def eggPairs (processors : List MetaModel.ErProcessor) : List (Int × MetaModel.ErProcessor) :=
  (processors.filter is_egg_pair).map fun p => (p.server_node_id,p)

private theorem add_grouped (self : ErSession) {after : ErSession} {before : List (Int × MetaModel.ErProcessor)}
    (grouped : Grouped before self.eggs) (processors : List MetaModel.ErProcessor)
    (added : self.add processors = .ok after) : Grouped (before ++ eggPairs processors) after.eggs := by
  induction processors generalizing self before with
  | nil =>
    cases added
    simpa [eggPairs] using grouped
  | cons processor rest ih =>
    rw [add] at added
    by_cases egg : is_egg_pair processor
    · rw [if_pos egg] at added
      simpa [eggPairs,egg] using ih _ (grouped.add processor.server_node_id processor) added
    · rw [if_neg egg] at added
      split at added
      · simpa [eggPairs,egg] using ih { self with rolls := self.rolls ++ [processor] } grouped added
      · cases added

private theorem init_grouped {processors : List MetaModel.ErProcessor} {self : ErSession}
    (started : init processors = .ok self) : Grouped (eggPairs processors) self.eggs :=
  add_grouped ⟨[],[]⟩ .nil processors started

private theorem eggsOf_ok {self : ErSession} {node : Int} {eggs : List MetaModel.ErProcessor} :
    self.eggsOf node = .ok eggs ↔ self.eggs.lookup node = some eggs := by
  unfold eggsOf
  cases self.eggs.lookup node <;> simp

private theorem eggsOf_present {pairs : List (Int × MetaModel.ErProcessor)} {self : ErSession}
    (grouped : Grouped pairs self.eggs) {node : Int} (present : node ∈ pairs.map Prod.fst) :
    self.eggsOf node = .ok (valuesOf node pairs) ∧ 0 < (valuesOf node pairs).length := by
  obtain ⟨pair,inside,rfl⟩ := List.mem_map.mp present
  exact ⟨eggsOf_ok.mpr (grouped.lookup present),List.length_pos_of_mem (mem_valuesOf.mpr inside)⟩

private theorem eggsOf_absent {pairs : List (Int × MetaModel.ErProcessor)} {self : ErSession}
    (grouped : Grouped pairs self.eggs) {node : Int} {eggs : List MetaModel.ErProcessor}
    (found : self.eggsOf node = .ok eggs) : node ∈ pairs.map Prod.fst := by
  obtain ⟨before,after,same,-⟩ := List.lookup_eq_some_iff.mp (eggsOf_ok.mp found)
  rw [← grouped.keys,same]
  simp

private theorem _calculate_rank_in_node_ok (i : ℕ) {N e : ℕ} (nodes : 0 < N) (eggs : 0 < e) :
    _calculate_rank_in_node i N e = .ok ((i / N % e : ℕ) : Int) := by
  rw [_calculate_rank_in_node,if_neg (by omega),Int.fdiv_eq_ediv_of_nonneg _ (by omega),
    Int.fmod_eq_emod_of_nonneg _ (by omega)]
  rfl

private theorem item_ok {eggs : List MetaModel.ErProcessor} {place : ℕ} {egg : MetaModel.ErProcessor}
    (there : eggs[place]? = some egg) : item eggs place = .ok egg := by
  have index : (place : Int).toNat? = some place := rfl
  rw [item,if_neg (by omega),index]
  simp only [there]

theorem item_mem {eggs : List MetaModel.ErProcessor} {index : Int} {egg : MetaModel.ErProcessor}
    (chosen : item eggs index = .ok egg) : egg ∈ eggs := by
  unfold item at chosen
  split at chosen
  · split at chosen
    · rename_i found
      cases chosen
      exact List.mem_of_getElem? found
    · cases chosen
  · cases chosen

/-- Calls can reach an egg. -/
def Usable (egg : MetaModel.ErProcessor) : Prop :=
  ∃ endpoint, egg.command_endpoint = some endpoint ∧ endpoint.host ≠ "" ∧ 0 < endpoint.port

private theorem route_to_egg_by_rank_ok {self : ErSession} {node : Int} {eggs : List MetaModel.ErProcessor} {place : ℕ}
    {egg : MetaModel.ErProcessor} (found : self.eggsOf node = .ok eggs) (there : eggs[place]? = some egg)
    (usable : Usable egg) : self.route_to_egg_by_rank node place = .ok egg := by
  obtain ⟨endpoint,command,host,port⟩ := usable
  simp only [route_to_egg_by_rank,bind,Except.bind,found,item_ok there,command]
  rw [if_neg (by simp [host,port])]

def routed (self : ErSession) (partitions : List ErPartition) (node : Int) (place : ℕ) : ℕ :=
  (partitions.filter fun p => serverNodeId p = .ok node ∧ self.rankOf p = .ok (place : Int)).length

/-- Each partition has a rank for which its node has an egg, and no egg of a node gets two
partitions more than another. -/
structure Spread (session : ErSession) (partitions : List ErPartition) : Prop where
  ranked : ∀ p ∈ partitions, ∃ node eggs, ∃ place : ℕ, ∃ egg, serverNodeId p = .ok node ∧
    session.eggsOf node = .ok eggs ∧ session.rankOf p = .ok (place : Int) ∧ eggs[place]? = some egg ∧
      (Usable egg → session.route_to_egg p = .ok egg)
  even : ∀ node eggs, session.eggsOf node = .ok eggs → ∀ place < eggs.length, ∀ other < eggs.length,
    session.routed partitions node place ≤ session.routed partitions node other + 1

def assigned (partitions : List ErPartition) (node : Int) (place : ℕ) : ℕ :=
  (partitions.filter fun p => serverNodeId p = .ok node ∧ p.rank_in_node = some (place : Int)).length

/-- Each partition has been given an egg of its node and the place of this egg there, and no egg of
a node has been given two partitions more than another. -/
structure Populated (session : ErSession) (before after : List ErPartition) : Prop where
  given : List.Forall₂ (fun p made => made.id = p.id ∧ made.store_locator = p.store_locator ∧
    ∃ node eggs, ∃ place : ℕ, ∃ egg, serverNodeId p = .ok node ∧ session.eggsOf node = .ok eggs ∧
      eggs[place]? = some egg ∧ made.processor = some egg ∧ made.rank_in_node = some (place : Int)) before after
  even : ∀ node eggs, session.eggsOf node = .ok eggs → ∀ place < eggs.length, ∀ other < eggs.length,
    assigned after node place ≤ assigned after node other + 1

private theorem filter_range_length (q : ℕ → Prop) [DecidablePred q] (P : ℕ) :
    ((List.range P).filter fun i => q i).length = P.count q := by
  induction P with
  | zero => rfl
  | succ P ih =>
    rw [List.range_succ,List.filter_append,List.length_append,ih,Nat.count_succ]
    by_cases this : q P <;> simp [this]

private theorem dealt_count {N e : ℕ} (nodes : 0 < N) (eggs : 0 < e) {j place : ℕ} (node : j < N) (egg : place < e) (P : ℕ) :
    P.count (fun i => i % N = j ∧ i / N % e = place) =
      P / (N * e) + if j + N * place < P % (N * e) then 1 else 0 := by
  have below : j + N * place < N * e := by
    have : N * (place + 1) ≤ N * e := Nat.mul_le_mul_left N egg
    rw [Nat.mul_add] at this
    omega
  have residue (i : ℕ) : (i % N = j ∧ i / N % e = place) ↔ i ≡ j + N * place [MOD N * e] := by
    rw [Nat.ModEq,Nat.mod_eq_of_lt below,Nat.mod_mul]
    constructor
    · rintro ⟨rfl,rfl⟩
      rfl
    · intro same
      have left : i % N = j := by
        have := congrArg (· % N) same
        simpa [Nat.add_mul_mod_self_left,Nat.mod_eq_of_lt node] using this
      refine ⟨left,?_⟩
      rw [left] at same
      exact Nat.eq_of_mul_eq_mul_left nodes (Nat.add_left_cancel same)
  simp only [residue]
  rw [Nat.count_modEq_card P (Nat.mul_pos nodes eggs),Nat.mod_eq_of_lt below]

/-- A partition that is the i-th of those placed around the nodes and whose rank is not set,
or set to what is computed. -/
structure Placed (session : ErSession) (nodes : List Int) (p : ErPartition) (i : ℕ) : Prop where
  node : ∀ node, nodes[i % nodes.length]? = some node → serverNodeId p = .ok node ∧
    session.rankOf p = session.get_rank_in_node i node

section
variable {self : ErSession} {pairs : List (Int × MetaModel.ErProcessor)} {nodes : List Int} {partition : ℕ → ErPartition}

theorem Placed.rank (grouped : Grouped pairs self.eggs) (count : self.eggs.length = nodes.length)
    (known : ∀ id ∈ nodes, id ∈ pairs.map Prod.fst) {p : ErPartition} {i : ℕ} (placed : self.Placed nodes p i)
    {node : Int} (there : nodes[i % nodes.length]? = some node) :
    self.rankOf p = .ok ((i / nodes.length % (valuesOf node pairs).length : ℕ) : Int) := by
  obtain ⟨found,some_egg⟩ := eggsOf_present grouped (known node (List.mem_of_getElem? there))
  have some_node : 0 < nodes.length := List.length_pos_of_mem (List.mem_of_getElem? there)
  rw [(placed.node node there).2,get_rank_in_node,found,count]
  exact _calculate_rank_in_node_ok i some_node some_egg

private theorem nodes_counted (grouped : Grouped pairs self.eggs) (distinct : nodes.Nodup)
    (same : ∀ id, id ∈ nodes ↔ id ∈ pairs.map Prod.fst) : self.eggs.length = nodes.length := by
  have perm : (self.eggs.map Prod.fst).Perm nodes :=
    (List.perm_ext_iff_of_nodup grouped.distinct distinct).mpr fun id => (grouped.keys id).trans (same id).symm
  simpa using perm.length_eq

private theorem even_of_dealt (grouped : Grouped pairs self.eggs) (distinct : nodes.Nodup)
    (same : ∀ id, id ∈ nodes ↔ id ∈ pairs.map Prod.fst) (some_node : nodes ≠ []) (P : ℕ)
    (chosen : Int → ℕ → ErPartition → Bool) (dealt : ∀ i < P, ∀ node place, chosen node place (partition i) = true ↔
      nodes[i % nodes.length]? = some node ∧ i / nodes.length % (valuesOf node pairs).length = place) :
    ∀ node eggs, self.eggsOf node = .ok eggs → ∀ place < eggs.length, ∀ other < eggs.length,
      (((List.range P).map partition).filter (chosen node place)).length ≤
        (((List.range P).map partition).filter (chosen node other)).length + 1 := by
  intro node eggs found place egg other egg'
  have present : node ∈ nodes := (same node).mpr (eggsOf_absent grouped found)
  have positive : 0 < nodes.length := List.length_pos_of_ne_nil some_node
  have inside (i : ℕ) : i % nodes.length < nodes.length := Nat.mod_lt i positive
  obtain ⟨j,less,rfl⟩ := List.mem_iff_getElem.mp present
  obtain ⟨found',some_egg⟩ := eggsOf_present grouped ((same _).mp present)
  rw [found'] at found
  cases found
  have counted (place : ℕ) : (((List.range P).map partition).filter (chosen nodes[j] place)).length =
      P.count fun i => i % nodes.length = j ∧ i / nodes.length % (valuesOf nodes[j] pairs).length = place := by
    rw [List.filter_map,List.length_map,← filter_range_length]
    refine congrArg List.length (List.filter_congr fun i member => ?_)
    rw [Bool.eq_iff_iff,decide_eq_true_iff,Function.comp_apply,dealt i (List.mem_range.mp member),
      List.getElem?_eq_getElem (inside i),Option.some.injEq,distinct.getElem_inj_iff]
  rw [counted,counted,dealt_count positive some_egg less egg,dealt_count positive some_egg less egg']
  split <;> split <;> omega

private theorem spread_of_placed (grouped : Grouped pairs self.eggs) (distinct : nodes.Nodup)
    (same : ∀ id, id ∈ nodes ↔ id ∈ pairs.map Prod.fst) (some_node : nodes ≠ []) (P : ℕ)
    (placed : ∀ i < P, self.Placed nodes (partition i) i) : self.Spread ((List.range P).map partition) := by
  have known : ∀ id ∈ nodes, id ∈ pairs.map Prod.fst := fun id => (same id).mp
  have count := nodes_counted grouped distinct same
  have positive : 0 < nodes.length := List.length_pos_of_ne_nil some_node
  have inside (i : ℕ) : i % nodes.length < nodes.length := Nat.mod_lt i positive
  constructor
  · intro p member
    obtain ⟨i,less,rfl⟩ := List.mem_map.mp member
    have this := placed i (List.mem_range.mp less)
    have there := List.getElem?_eq_getElem (inside i)
    obtain ⟨found,some_egg⟩ := eggsOf_present grouped (known _ (List.mem_of_getElem? there))
    have rank := this.rank grouped count known there
    have egg := List.getElem?_eq_getElem (Nat.mod_lt (i / nodes.length) some_egg)
    refine ⟨_,_,_,_,(this.node _ there).1,found,rank,egg,fun usable => ?_⟩
    simp only [route_to_egg,bind,Except.bind,(this.node _ there).1,rank]
    exact route_to_egg_by_rank_ok found egg usable
  · refine even_of_dealt grouped distinct same some_node P
      (fun node place p => serverNodeId p = .ok node ∧ self.rankOf p = .ok (place : Int)) fun i less node place => ?_
    have this := placed i less
    have there := List.getElem?_eq_getElem (inside i)
    rw [decide_eq_true_iff,(this.node _ there).1,this.rank grouped count known there,there,Except.ok.injEq,
      Except.ok.injEq,Option.some.injEq,Int.ofNat_inj]
    constructor
    · rintro ⟨rfl,rank⟩
      exact ⟨rfl,rank⟩
    · rintro ⟨rfl,rank⟩
      exact ⟨rfl,rank⟩

end

end ErSession

def received (p : StoreCrud.ErPartition) : ErPartition where
  id := p.id
  store_locator := p.storeLocator
  processor := some
    { id := p.processor.id, server_node_id := p.processor.serverNodeId, name := "", processor_type := "",
      status := "", command_endpoint := some ⟨"",0⟩, transfer_endpoint := some ⟨"",0⟩, pid := -1, options := ∅,
      tag := p.processor.tag }
  rank_in_node := some p.rankInNode

def receivedStore (store : StoreCrud.ErStore) : ErStore :=
  ⟨store.storeLocator,store.partitions.map received,store.options⟩

section
open StoreCrud
variable {s t : Metadata} {env : ℕ → Env} {input store : StoreCrud.ErStore} {n : ℕ}

private theorem created_partitions (created : (doCreateStore input).run Metadata.serve env s 0 = some (t,n,.ok store)) :
    (env 1).nodes ≠ [] ∧
      store.partitions = (List.range (made input (env 1))).map (newPartition input (sorted (env 1))) := by
  by_cases refused : Refused s env input
  · obtain ⟨e,ran⟩ := create_refused refused
    rw [ran] at created
    cases created
  rw [create_located refused] at created
  by_cases completes : Completes env input
  · obtain ⟨t',m,ran,-,-⟩ := createPartitions_returns s.nextId input (s := located s input) (n := 1)
      completes.listed completes.healthy completes.saved completes.kept
    rw [ran] at created
    cases created
    exact ⟨completes.healthy,rfl⟩
  · obtain ⟨t',m,e,ran,-⟩ := createPartitions_unfinished (s := s) completes
    rw [ran] at created
    cases created

end

open ErSession

private theorem serverNodeId_received (input : StoreCrud.ErStore) (nodes : List Int) (i : ℕ) :
    serverNodeId (received (StoreCrud.newPartition input nodes i)) = .ok (StoreCrud.nodeOf input nodes i) := rfl

private theorem placed_received (self : ErSession) {input : StoreCrud.ErStore} (unspecified : input.partitions = [])
    (nodes : List Int) (i : ℕ) : self.Placed nodes (received (StoreCrud.newPartition input nodes i)) i := by
  constructor
  intro node there
  have this : StoreCrud.nodeOf input nodes i = node := by
    rw [StoreCrud.nodeOf,if_pos unspecified,List.getD_eq_getElem?_getD,there]
    rfl
  refine ⟨by rw [serverNodeId_received,this],?_⟩
  simp only [rankOf,bind,Except.bind,this,received,StoreCrud.newPartition]
  rfl

private theorem eggs_given {processors : List MetaModel.ErProcessor} {self : ErSession}
    (grouped : Grouped (eggPairs processors) self.eggs) {node : Int} {eggs : List MetaModel.ErProcessor}
    (found : self.eggsOf node = .ok eggs) {egg : MetaModel.ErProcessor} (member : egg ∈ eggs) :
    egg ∈ processors ∧ is_egg_pair egg = true ∧ egg.server_node_id = node := by
  rw [(eggsOf_present grouped (eggsOf_absent grouped found)).1] at found
  cases found
  obtain ⟨p,given,pair⟩ := List.mem_map.mp (mem_valuesOf.mp member)
  cases pair
  obtain ⟨own,is⟩ := List.mem_filter.mp given
  exact ⟨own,is,rfl⟩

private theorem route_to_egg_by_rank_chosen {self : ErSession} {node : Int} {eggs : List MetaModel.ErProcessor} {place : ℕ}
    {egg result : MetaModel.ErProcessor} (found : self.eggsOf node = .ok eggs) (there : eggs[place]? = some egg)
    (routed : self.route_to_egg_by_rank node place = .ok result) : result = egg := by
  simp only [route_to_egg_by_rank,bind,Except.bind,found,item_ok there] at routed
  split at routed
  · cases routed
  · split at routed
    · cases routed
    · exact (Except.ok.inj routed).symm

section
variable {processors : List MetaModel.ErProcessor} {self : ErSession} {nodes : List Int}

/-- The egg that the i-th of the partitions is for. -/
structure Chosen (session : ErSession) (nodes : List Int) (i : ℕ) (node : Int) (eggs : List MetaModel.ErProcessor)
    (egg : MetaModel.ErProcessor) : Prop where
  at_node : nodes[i % nodes.length]? = some node
  found : session.eggsOf node = .ok eggs
  there : eggs[i / nodes.length % eggs.length]? = some egg
  own : egg.server_node_id = node

private theorem exists_chosen (grouped : Grouped (eggPairs processors) self.eggs)
    (known : ∀ id ∈ nodes, id ∈ (eggPairs processors).map Prod.fst) (some_node : nodes ≠ []) (i : ℕ) :
    ∃ node eggs egg, Chosen self nodes i node eggs egg := by
  have there := List.getElem?_eq_getElem (Nat.mod_lt i (List.length_pos_of_ne_nil some_node))
  obtain ⟨found,some_egg⟩ := eggsOf_present grouped (known _ (List.mem_of_getElem? there))
  have egg := List.getElem?_eq_getElem (Nat.mod_lt (i / nodes.length) some_egg)
  exact ⟨_,_,_,there,found,egg,(eggs_given grouped found (List.mem_of_getElem? egg)).2.2⟩

variable {p result : ErPartition} {i : ℕ} {node : Int} {eggs : List MetaModel.ErProcessor} {egg : MetaModel.ErProcessor}

theorem Chosen.rank (chosen : Chosen self nodes i node eggs egg) (count : self.eggs.length = nodes.length) :
    self.get_rank_in_node i node = .ok ((i / nodes.length % eggs.length : ℕ) : Int) := by
  have some_egg : 0 < eggs.length := List.length_pos_of_mem (List.mem_of_getElem? chosen.there)
  have some_node : 0 < nodes.length := List.length_pos_of_mem (List.mem_of_getElem? chosen.at_node)
  simp only [get_rank_in_node,bind,Except.bind,chosen.found,count]
  exact _calculate_rank_in_node_ok i some_node some_egg

private theorem Chosen.populate (chosen : Chosen self nodes i node eggs egg) (count : self.eggs.length = nodes.length)
    (id : p.id = i) (placed : self.Placed nodes p i) :
    (∀ result, self.populate p = .ok result → result =
      ⟨p.id,p.store_locator,some egg,some ((i / nodes.length % eggs.length : ℕ) : Int)⟩) ∧
    (Usable egg → ∃ result, self.populate p = .ok result) := by
  have rounds : self.populate p = do
      let processor ← self.route_to_egg_by_rank node ((i / nodes.length % eggs.length : ℕ) : Int)
      return ⟨p.id,p.store_locator,some processor,some ((i / nodes.length % eggs.length : ℕ) : Int)⟩ := by
    simp only [ErSession.populate,bind,Except.bind,(placed.node node chosen.at_node).1,id,chosen.rank count]
  refine ⟨fun result done => ?_,fun usable => ?_⟩
  · rw [rounds] at done
    obtain ⟨processor,routed,done⟩ := ok_of_bind done
    cases done
    rw [route_to_egg_by_rank_chosen chosen.found chosen.there routed]
  · rw [rounds,route_to_egg_by_rank_ok chosen.found chosen.there usable]
    exact ⟨_,rfl⟩

theorem Chosen.placed (chosen : Chosen self nodes i node eggs egg) (count : self.eggs.length = nodes.length)
    (id : result.id = i) (processor : result.processor = some egg)
    (rank : result.rank_in_node = some ((i / nodes.length % eggs.length : ℕ) : Int)) : self.Placed nodes result i := by
  constructor
  intro node' there
  obtain rfl : node = node' := Option.some.inj (chosen.at_node.symm.trans there)
  have at_node : serverNodeId result = .ok node := by
    rw [serverNodeId,processor]
    exact congrArg Except.ok chosen.own
  refine ⟨at_node,?_⟩
  simp only [rankOf,bind,Except.bind,at_node,rank,id,chosen.rank count]
  split <;> rfl

end

section
variable {processors : List MetaModel.ErProcessor} {self : ErSession} {nodes : List Int} {partition made : ℕ → ErPartition}

private theorem populated_of_rounds (grouped : Grouped (eggPairs processors) self.eggs) (distinct : nodes.Nodup)
    (same : ∀ id, id ∈ nodes ↔ id ∈ (eggPairs processors).map Prod.fst) (some_node : nodes ≠ []) (P : ℕ)
    (id : ∀ i, (partition i).id = i) (placed : ∀ i, self.Placed nodes (partition i) i)
    (rounds : ∀ i < P, self.populate (partition i) = .ok (made i)) :
    self.Populated ((List.range P).map partition) ((List.range P).map made) ∧ self.Spread ((List.range P).map made) := by
  have count := nodes_counted grouped distinct same
  have round (i : ℕ) (less : i < P) : ∃ node eggs egg, Chosen self nodes i node eggs egg ∧
      made i = ⟨(partition i).id,(partition i).store_locator,some egg,some ((i / nodes.length % eggs.length : ℕ) : Int)⟩ := by
    obtain ⟨node,eggs,egg,chosen⟩ := exists_chosen grouped (fun id => (same id).mp) some_node i
    exact ⟨node,eggs,egg,chosen,(chosen.populate count (id i) (placed i)).1 _ (rounds i less)⟩
  refine ⟨⟨?_,?_⟩,spread_of_placed grouped distinct same some_node P fun i less => ?_⟩
  · refine List.forall₂_map_left_iff.mpr (List.forall₂_map_right_iff.mpr (List.forall₂_same.mpr fun i member => ?_))
    obtain ⟨node,eggs,egg,chosen,is⟩ := round i (List.mem_range.mp member)
    rw [is]
    exact ⟨rfl,rfl,node,eggs,_,egg,((placed i).node node chosen.at_node).1,chosen.found,chosen.there,rfl,rfl⟩
  · refine even_of_dealt grouped distinct same some_node P
      (fun node place p => serverNodeId p = .ok node ∧ p.rank_in_node = some (place : Int)) fun i less node place => ?_
    obtain ⟨node',eggs,egg,chosen,is⟩ := round i less
    have found := (eggsOf_present grouped ((same _).mp (List.mem_of_getElem? chosen.at_node))).1
    obtain rfl : eggs = valuesOf node' (eggPairs processors) := Except.ok.inj (chosen.found.symm.trans found)
    rw [decide_eq_true_iff,is,chosen.at_node,Option.some.injEq]
    simp only [serverNodeId,Except.ok.injEq,chosen.own,Option.some.injEq,Int.ofNat_inj]
    constructor
    · rintro ⟨rfl,rank⟩
      exact ⟨rfl,rank⟩
    · rintro ⟨rfl,rank⟩
      exact ⟨rfl,rank⟩
  · obtain ⟨node,eggs,egg,chosen,is⟩ := round i less
    rw [is]
    exact chosen.placed count (id i) rfl rfl

end

/-- Every partition of a store that `doCreateStore` has placed around the nodes is routed to
an egg of its node, and the eggs of a node get equally many but for one. When the eggs are to be
reached `populate_processor` returns, and what it returns carries these eggs and their places. -/
theorem routes_evenly {processors : List MetaModel.ErProcessor} {self : ErSession} (started : init processors = .ok self)
    {s t : StoreCrud.Metadata} {env : ℕ → StoreCrud.Env} {input store : StoreCrud.ErStore} {n : ℕ}
    (created : (StoreCrud.doCreateStore input).run StoreCrud.Metadata.serve env s 0 = some (t,n,.ok store))
    (unspecified : input.partitions = []) (distinct : (env 1).nodes.Nodup)
    (same : ∀ id, id ∈ (env 1).nodes ↔ ∃ p ∈ processors, is_egg_pair p ∧ p.server_node_id = id) :
    self.Spread (receivedStore store).partitions ∧
      ((∀ p ∈ processors, is_egg_pair p → Usable p) →
        ∃ populated, self.populate_processor (receivedStore store) = .ok populated) ∧
      ∀ populated, self.populate_processor (receivedStore store) = .ok populated →
        self.Populated (receivedStore store).partitions populated.partitions ∧ self.Spread populated.partitions := by
  have grouped := init_grouped started
  obtain ⟨healthy,made⟩ := created_partitions created
  have sorts : (StoreCrud.sorted (env 1)).Perm (env 1).nodes := List.perm_insertionSort _ _
  have keys (id : Int) : id ∈ StoreCrud.sorted (env 1) ↔ id ∈ (eggPairs processors).map Prod.fst := by
    rw [sorts.mem_iff,same]
    simp [eggPairs]
    tauto
  have sorted_distinct := sorts.nodup_iff.mpr distinct
  have nodes : StoreCrud.sorted (env 1) ≠ [] := fun none => healthy (List.perm_nil.mp (none ▸ sorts).symm)
  have placed (i : ℕ) := placed_received self unspecified (StoreCrud.sorted (env 1)) i
  have partitions : (receivedStore store).partitions = (List.range (StoreCrud.made input (env 1))).map fun i =>
      received (StoreCrud.newPartition input (StoreCrud.sorted (env 1)) i) := by
    rw [receivedStore,made,List.map_map]
    rfl
  refine ⟨?_,fun usable => ?_,fun populated done => ?_⟩
  · rw [partitions]
    exact spread_of_placed grouped sorted_distinct keys nodes _ fun i _ => placed i
  · have each (p : ErPartition) (member : p ∈ (receivedStore store).partitions) : ∃ result, self.populate p = .ok result := by
      rw [partitions] at member
      obtain ⟨i,-,rfl⟩ := List.mem_map.mp member
      obtain ⟨node,eggs,egg,chosen⟩ := exists_chosen grouped (fun id => (keys id).mp) nodes i
      refine (chosen.populate (nodes_counted grouped sorted_distinct keys) rfl (placed i)).2 ?_
      obtain ⟨own,is,-⟩ := eggs_given grouped chosen.found (List.mem_of_getElem? chosen.there)
      exact usable egg own is
    obtain ⟨results,all⟩ := mapM_returns each
    exact ⟨_,by rw [populate_processor,all]; rfl⟩
  · obtain ⟨results,all,done⟩ := ok_of_bind done
    cases done
    rw [partitions] at all ⊢
    have rounds := List.forall₂_map_left_iff.mp (mapM_ok.mp all)
    have long : results.length = StoreCrud.made input (env 1) := by simpa using rounds.length_eq.symm
    have listed : results = (List.range (StoreCrud.made input (env 1))).map fun i =>
        results.getD i (received (StoreCrud.newPartition input (StoreCrud.sorted (env 1)) i)) := by
      refine List.ext_getElem (by simp [long]) fun i less _ => ?_
      simp [less]
    dsimp only
    rw [listed]
    refine populated_of_rounds grouped sorted_distinct keys nodes _ (fun i => rfl) placed fun i less => ?_
    have round := List.Forall₂.get rounds (by simpa using less) (by omega)
    rw [List.getD_eq_getElem?_getD,List.getElem?_eq_getElem (by omega)]
    simpa using round

/-- Two eggs on one node and one on another. -/
def threeEggs : List MetaModel.ErProcessor :=
  [(4,EGG_PAIR),(4,ROLL_PAIR_MASTER),(7,EGG_PAIR),(4,EGG_PAIR)].map fun p =>
    { id := -1, server_node_id := p.1, name := "", processor_type := p.2, status := "RUNNING",
      command_endpoint := some ⟨"host",9000⟩, transfer_endpoint := none, pid := -1, options := ∅, tag := "" }

theorem routes_evenly_three : ∃ self t n store populated, init threeEggs = .ok self ∧
    (StoreCrud.doCreateStore (StoreCrud.table 5)).run StoreCrud.Metadata.serve (fun _ => { nodes := [7,4] }) .empty 0 =
      some (t,n,.ok store) ∧ self.Spread (receivedStore store).partitions ∧
    self.populate_processor (receivedStore store) = .ok populated ∧
      populated.partitions.map ErPartition.rank_in_node = [some 0,some 0,some 1,some 0,some 0] ∧
      self.Populated (receivedStore store).partitions populated.partitions := by
  obtain ⟨self,started⟩ : ∃ self, init threeEggs = .ok self := ⟨_,rfl⟩
  obtain ⟨t,n,store,created⟩ : ∃ t n store, (StoreCrud.doCreateStore (StoreCrud.table 5)).run
    StoreCrud.Metadata.serve (fun _ => { nodes := [7,4] }) .empty 0 = some (t,n,.ok store) := ⟨_,_,_,rfl⟩
  have nodes (id : Int) : id ∈ [(7 : Int),4] ↔ ∃ p ∈ threeEggs, is_egg_pair p ∧ p.server_node_id = id := by
    simp [threeEggs,is_egg_pair,EGG_PAIR,ROLL_PAIR_MASTER]
    omega
  obtain ⟨spread,returns,populates⟩ := routes_evenly started created rfl (by decide) nodes
  have usable (p : MetaModel.ErProcessor) (member : p ∈ threeEggs) (_ : is_egg_pair p = true) : Usable p := by
    obtain ⟨_,-,rfl⟩ := List.mem_map.mp member
    exact ⟨_,rfl,by decide,by decide⟩
  obtain ⟨populated,done⟩ := returns usable
  refine ⟨self,t,n,store,populated,started,created,spread,done,?_,(populates populated done).1⟩
  cases started
  cases created
  cases done
  rfl

end Eggroll.SessionRouting
