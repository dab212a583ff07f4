import Eggroll.Library.Grouping
import Eggroll.Library.PyString
import Eggroll.ResourceApplication

/-! The ranks that `handleDeepspeedSubmit` (`JobServiceHandler.java`) gives to the containers
of a dispatch: the processors grouped by node, in whatever order the map of nodes is gone
through, and three counters that go on from node to node. -/
namespace Eggroll.DeepspeedRanks
open Library

/-- What is read of a dispatched processor: its id and its options. -/
structure ErProcessor where
  id : Int
  options : List (String × String)
deriving Repr, DecidableEq

structure DeepspeedContainerConfig where
  cudaVisibleDevices : List Int
  worldSize : ℕ
  crossRank : ℕ
  crossSize : ℕ
  localSize : ℕ
  localRank : ℕ
  rank : ℕ
  storePrefix : String
deriving Repr, DecidableEq

/-- A container's id and node with what it is told. -/
structure Config where
  id : Int
  node : ErServerNode
  config : DeepspeedContainerConfig
deriving Repr, DecidableEq

/-- The exceptions, with the text or the devices that their messages show. -/
inductive Raised
  | numberFormat
  | invalid (cudaVisibleDevices : Option String)
  | duplicate (cudaVisibleDevices : List Int)
deriving Repr, DecidableEq

/-- `text.split(",")`: empty parts at the end are left out, unless there is no comma. -/
def split (text : String) : List (List Char) :=
  match text.toList.splitOn ',' with
  | [whole] => [whole]
  | parts => (parts.reverse.dropWhile List.isEmpty).reverse

/-- `Integer.parseInt`. -/
def parseInt (text : List Char) : Except Raised Int :=
  match parseSigned text with
  | some n => if -(2 ^ 31) ≤ n ∧ n < 2 ^ 31 then .ok n else .error .numberFormat
  | none => .error .numberFormat

def parseDevices (option : Option String) : List (List Char) → Except Raised (List Int)
  | [] => .ok []
  | devicesStr :: rest => do
    let device ← parseInt devicesStr
    if device < 0 then .error (.invalid option)
    else return device :: (← parseDevices option rest)

def devicesOf (p : ErProcessor) : Except Raised (List Int) :=
  let option := p.options.lookup "cudaVisibleDevices"
  parseDevices option (split (option.getD "-1"))

/-- `cudaVisibleDevices` of a node. -/
def visibleDevices : List ErProcessor → Except Raised (List Int)
  | [] => .ok []
  | p :: rest => do
    let devices ← devicesOf p
    return devices ++ (← visibleDevices rest)

/-- What does not change while ranks are given. -/
structure Submit where
  worldSize : ℕ
  sessionId : String
deriving Repr, DecidableEq

/-- The counters and the configs so far. -/
structure State where
  globalRank : ℕ := 0
  crossSize : ℕ := 0
  crossRank : ℕ := 0
  configs : List Config := []
deriving Repr, DecidableEq

def rankContainers (submit : Submit) (node : ErServerNode) (devices : List Int) (localSize : ℕ) :
    List ErProcessor → ℕ → State → State
  | [], _, s => s
  | p :: rest, localRank, s =>
    let config : DeepspeedContainerConfig :=
      { cudaVisibleDevices := devices
        worldSize := submit.worldSize
        crossRank := s.crossRank
        crossSize := s.crossSize
        localSize := localSize
        localRank := localRank
        rank := s.globalRank
        storePrefix := submit.sessionId }
    rankContainers submit node devices localSize rest (localRank + 1)
      { s with configs := s.configs ++ [⟨p.id,node,config⟩], globalRank := s.globalRank + 1 }

def rankNode (submit : Submit) (s : State) (entry : ErServerNode × List ErProcessor) : Except Raised State := do
  let s := { s with crossSize := s.crossSize + 1 }
  let devices ← visibleDevices entry.2
  if devices.dedup.length ≠ devices.length then .error (.duplicate devices)
  else
    let s := rankContainers submit entry.1 devices entry.2.length entry.2 0 s
    return { s with crossRank := s.crossRank + 1 }

/-- `collect.forEach`. -/
def rankNodes (submit : Submit) : List (ErServerNode × List ErProcessor) → State → Except Raised State
  | [], s => .ok s
  | entry :: rest, s => do rankNodes submit rest (← rankNode submit s entry)

/-- The configs for a dispatch whose map of nodes is gone through as listed. -/
def assignRanks (submit : Submit) {dispatched : List (ErServerNode × ErProcessor)} (collect : Listing dispatched) :
    Except Raised (List Config) := do
  return (← rankNodes submit collect.entries {}).configs

/-- Each processor has a list of devices, none negative, and none twice on a node. -/
def Valid (dispatched : List (ErServerNode × ErProcessor)) : Prop :=
  ∀ node, ∃ devices, visibleDevices (valuesOf node dispatched) = .ok devices ∧ devices.Nodup

/-- The ranks that a dispatch of processors calls for. -/
structure Ranked (worldSize : ℕ) (dispatched : List (ErServerNode × ErProcessor)) (configs : List Config) :
    Prop where
  each : (configs.map fun c => (c.node,c.id)).Perm (dispatched.map fun pair => (pair.1,pair.2.id))
  ranks : (configs.map fun c => c.config.rank).Perm (List.range worldSize)
  local_ranks : ∀ node, ((configs.filter fun c => c.node = node).map fun c => c.config.localRank).Perm
    (List.range (valuesOf node dispatched).length)
  local_size : ∀ c ∈ configs, c.config.localSize = (valuesOf c.node dispatched).length
  cross_same : ∀ c ∈ configs, ∀ other ∈ configs, c.node = other.node → c.config.crossRank = other.config.crossRank
  cross_distinct : ∀ c ∈ configs, ∀ other ∈ configs, c.node ≠ other.node →
    c.config.crossRank ≠ other.config.crossRank
  cross_below : ∀ c ∈ configs, c.config.crossRank < c.config.crossSize
  cross_size : ∀ c ∈ configs, c.config.crossSize = (dispatched.map Prod.fst).dedup.length

def containers (submit : Submit) (node : ErServerNode) (devices : List Int) (crossRank localSize : ℕ) :
    List ErProcessor → ℕ → ℕ → List Config
  | [], _, _ => []
  | p :: rest, localRank, rank =>
    ⟨p.id,node,⟨devices,submit.worldSize,crossRank,crossRank + 1,localSize,localRank,rank,submit.sessionId⟩⟩ ::
      containers submit node devices crossRank localSize rest (localRank + 1) (rank + 1)

section
variable {submit : Submit} {node : ErServerNode} {devices : List Int} {crossRank localSize : ℕ}

private theorem rankContainers_eq (ps : List ErProcessor) (localRank : ℕ) (s : State) (size : s.crossSize = s.crossRank + 1) :
    rankContainers submit node devices localSize ps localRank s =
      { s with
        configs := s.configs ++ containers submit node devices s.crossRank localSize ps localRank s.globalRank
        globalRank := s.globalRank + ps.length } := by
  induction ps generalizing localRank s with
  | nil => simp [rankContainers,containers]
  | cons p rest ih =>
    rw [rankContainers]
    refine (ih _ _ ?_).trans ?_
    · exact size
    · simp [containers,size,Nat.add_comm,Nat.add_left_comm]

private theorem containers_rank (ps : List ErProcessor) (localRank rank : ℕ) :
    (containers submit node devices crossRank localSize ps localRank rank).map (fun c => c.config.rank) =
      List.range' rank ps.length := by
  induction ps generalizing localRank rank with
  | nil => rfl
  | cons p rest ih => rw [containers,List.map_cons,ih,List.length_cons,List.range'_succ]

private theorem containers_localRank (ps : List ErProcessor) (localRank rank : ℕ) :
    (containers submit node devices crossRank localSize ps localRank rank).map (fun c => c.config.localRank) =
      List.range' localRank ps.length := by
  induction ps generalizing localRank rank with
  | nil => rfl
  | cons p rest ih => rw [containers,List.map_cons,ih,List.length_cons,List.range'_succ]

private theorem containers_each (ps : List ErProcessor) (localRank rank : ℕ) :
    (containers submit node devices crossRank localSize ps localRank rank).map (fun c => (c.node,c.id)) =
      ps.map fun p => (node,p.id) := by
  induction ps generalizing localRank rank with
  | nil => rfl
  | cons p rest ih => rw [containers,List.map_cons,ih,List.map_cons]

private theorem containers_share {ps : List ErProcessor} {localRank rank : ℕ} {c : Config}
    (member : c ∈ containers submit node devices crossRank localSize ps localRank rank) :
    c.node = node ∧ c.config.crossRank = crossRank ∧ c.config.crossSize = crossRank + 1 ∧
      c.config.localSize = localSize := by
  induction ps generalizing localRank rank with
  | nil => cases member
  | cons p rest ih =>
    rcases List.mem_cons.mp member with rfl | later
    · exact ⟨rfl,rfl,rfl,rfl⟩
    · exact ih later

end

def devicesIn (ps : List ErProcessor) : List Int :=
  match visibleDevices ps with
  | .ok devices => devices
  | .error _ => []

/-- The configs of the nodes, the first of which has this cross rank and global rank. -/
def laid (submit : Submit) : List (ErServerNode × List ErProcessor) → ℕ → ℕ → List Config
  | [], _, _ => []
  | entry :: rest, crossRank, rank =>
    containers submit entry.1 (devicesIn entry.2) crossRank entry.2.length entry.2 0 rank ++
      laid submit rest (crossRank + 1) (rank + entry.2.length)

section
variable {submit : Submit} {entries : List (ErServerNode × List ErProcessor)}

private theorem rankNodes_eq (submit : Submit)
    (valid : ∀ entry ∈ entries, ∃ devices, visibleDevices entry.2 = .ok devices ∧ devices.Nodup)
    (s : State) (size : s.crossSize = s.crossRank) :
    ∃ t, rankNodes submit entries s = .ok t ∧ t.configs = s.configs ++ laid submit entries s.crossRank s.globalRank := by
  induction entries generalizing s with
  | nil => exact ⟨s,rfl,(List.append_nil _).symm⟩
  | cons entry rest ih =>
    obtain ⟨⟨devices,found,distinct⟩,others⟩ := List.forall_mem_cons.mp valid
    let next : State := ⟨s.globalRank + entry.2.length,s.crossSize + 1,s.crossRank + 1,
      s.configs ++ containers submit entry.1 devices s.crossRank entry.2.length entry.2 0 s.globalRank⟩
    have ranked : rankNode submit s entry = .ok next := by
      simp only [rankNode,found,bind,Except.bind]
      rw [if_neg (by rw [distinct.dedup]; simp),rankContainers_eq _ _ _ (by rw [size])]
      rfl
    obtain ⟨t,ran,configs⟩ := ih others next (congrArg (· + 1) size)
    refine ⟨t,?_,?_⟩
    · simp only [rankNodes,ranked,bind,Except.bind]
      exact ran
    · rw [configs,laid,List.append_assoc,devicesIn,found]

private theorem laid_ranks (entries : List (ErServerNode × List ErProcessor)) (crossRank rank : ℕ) :
    (laid submit entries crossRank rank).map (fun c => c.config.rank) =
      List.range' rank (entries.flatMap Prod.snd).length := by
  induction entries generalizing crossRank rank with
  | nil => rfl
  | cons entry rest ih =>
    rw [laid,List.map_append,containers_rank,ih,List.flatMap_cons,List.length_append,List.range'_append_1]

private theorem laid_each (entries : List (ErServerNode × List ErProcessor)) (crossRank rank : ℕ) :
    (laid submit entries crossRank rank).map (fun c => (c.node,c.id)) =
      entries.flatMap fun entry => entry.2.map fun p => (entry.1,p.id) := by
  induction entries generalizing crossRank rank with
  | nil => rfl
  | cons entry rest ih => rw [laid,List.map_append,containers_each,ih,List.flatMap_cons]

private theorem mem_laid {crossRank rank : ℕ} {c : Config} (member : c ∈ laid submit entries crossRank rank) :
    ∃ i entry, entries[i]? = some entry ∧ c.node = entry.1 ∧ c.config.crossRank = crossRank + i ∧
      c.config.crossSize = crossRank + i + 1 ∧ c.config.localSize = entry.2.length := by
  induction entries generalizing crossRank rank with
  | nil => cases member
  | cons entry rest ih =>
    rcases List.mem_append.mp member with here | later
    · exact ⟨0,entry,rfl,containers_share here⟩
    · obtain ⟨i,other,there,node,cross,size,count⟩ := ih later
      exact ⟨i + 1,other,there,node,by omega,by omega,count⟩

private theorem laid_absent {node : ErServerNode} (absent : node ∉ entries.map Prod.fst) (crossRank rank : ℕ) :
    (laid submit entries crossRank rank).filter (fun c => c.node = node) = [] := by
  rw [List.filter_eq_nil_iff]
  intro c member same
  obtain ⟨i,entry,there,at_node,-⟩ := mem_laid member
  have known : entry.1 ∈ entries.map Prod.fst := List.mem_map_of_mem (List.mem_of_getElem? there)
  rw [← at_node,of_decide_eq_true same] at known
  exact absent known

private theorem laid_node (distinct : (entries.map Prod.fst).Nodup) {entry : ErServerNode × List ErProcessor}
    (member : entry ∈ entries) (crossRank rank : ℕ) :
    ((laid submit entries crossRank rank).filter (fun c => c.node = entry.1)).map (fun c => c.config.localRank) =
      List.range entry.2.length := by
  induction entries generalizing crossRank rank with
  | nil => cases member
  | cons first rest ih =>
    rw [List.map_cons,List.nodup_cons] at distinct
    rw [laid,List.filter_append]
    rcases List.mem_cons.mp member with rfl | later
    · rw [laid_absent distinct.1,List.append_nil,List.filter_eq_self.mpr fun c inside =>
        decide_eq_true (containers_share inside).1,containers_localRank,List.range_eq_range']
    · have other : first.1 ≠ entry.1 := by
        intro same
        exact distinct.1 (same ▸ List.mem_map_of_mem later)
      have none_here : (containers submit first.1 (devicesIn first.2) crossRank first.2.length first.2 0 rank).filter
          (fun c => c.node = entry.1) = [] := by
        rw [List.filter_eq_nil_iff]
        intro c inside same
        exact other ((containers_share inside).1.symm.trans (of_decide_eq_true same))
      rw [none_here,List.nil_append]
      exact ih distinct.2 later _ _

end

section
variable {submit : Submit} {dispatched : List (ErServerNode × ErProcessor)} (collect : Listing dispatched)

private theorem assignRanks_eq (valid : Valid dispatched) :
    assignRanks submit collect = .ok (laid submit collect.entries 0 0) := by
  have each : ∀ entry ∈ collect.entries, ∃ devices, visibleDevices entry.2 = .ok devices ∧ devices.Nodup := by
    intro entry member
    rw [collect.grouped.values entry member]
    exact valid entry.1
  obtain ⟨t,ran,configs⟩ := rankNodes_eq submit each {} rfl
  simp only [assignRanks,ran,bind,Except.bind]
  rw [configs]
  rfl

private theorem entries_each : (collect.entries.flatMap fun entry => entry.2.map fun p => (entry.1,p.id)).Perm
    (dispatched.map fun pair => (pair.1,pair.2.id)) := by
  have listed := collect.grouped.pairs_perm.map fun pair => (pair.1,pair.2.id)
  simpa [List.map_flatMap,List.map_map,Function.comp_def] using listed

private theorem entry_node {i j : ℕ} {first second : ErServerNode × List ErProcessor} (at_i : collect.entries[i]? = some first)
    (at_j : collect.entries[j]? = some second) : first.1 = second.1 ↔ i = j := by
  have key_i : (collect.entries.map Prod.fst)[i]? = some first.1 := by rw [List.getElem?_map,at_i]; rfl
  have key_j : (collect.entries.map Prod.fst)[j]? = some second.1 := by rw [List.getElem?_map,at_j]; rfl
  constructor
  · intro same
    refine (List.getElem?_inj (List.getElem?_eq_some_iff.mp key_i).1 collect.grouped.distinct).mp ?_
    rw [key_i,key_j,same]
  · rintro rfl
    cases at_i.symm.trans at_j
    rfl

private theorem one_node : collect.entries.length ≤ 1 ↔ ∀ pair ∈ dispatched, ∀ other ∈ dispatched, pair.1 = other.1 := by
  constructor
  · intro few pair member other member'
    have here := (collect.grouped.keys pair.1).mpr (List.mem_map_of_mem member)
    have there := (collect.grouped.keys other.1).mpr (List.mem_map_of_mem member')
    obtain ⟨entry,inside,node⟩ := List.mem_map.mp here
    obtain ⟨entry',inside',node'⟩ := List.mem_map.mp there
    obtain ⟨i,at_i⟩ := List.mem_iff_getElem?.mp inside
    obtain ⟨j,at_j⟩ := List.mem_iff_getElem?.mp inside'
    have within := (List.getElem?_eq_some_iff.mp at_i).1
    have within' := (List.getElem?_eq_some_iff.mp at_j).1
    exact node.symm.trans (((entry_node collect at_i at_j).mpr (by omega)).trans node')
  · intro same
    by_contra many
    obtain ⟨first,at_first⟩ : ∃ entry, collect.entries[0]? = some entry := ⟨_,List.getElem?_eq_getElem (by omega)⟩
    obtain ⟨second,at_second⟩ : ∃ entry, collect.entries[1]? = some entry := ⟨_,List.getElem?_eq_getElem (by omega)⟩
    have used {i : ℕ} {entry : ErServerNode × List ErProcessor} (at_i : collect.entries[i]? = some entry) :
        ∃ pair ∈ dispatched, pair.1 = entry.1 :=
      List.mem_map.mp ((collect.grouped.keys entry.1).mp (List.mem_map_of_mem (List.mem_of_getElem? at_i)))
    obtain ⟨pair,member,node⟩ := used at_first
    obtain ⟨other,member',node'⟩ := used at_second
    have equal : first.1 = second.1 := node.symm.trans ((same pair member other member').trans node')
    exact absurd ((entry_node collect at_first at_second).mp equal) Nat.zero_ne_one

private theorem laid_ranked (count : dispatched.length = submit.worldSize)
    (size : collect.entries.length ≤ 1) : Ranked submit.worldSize dispatched (laid submit collect.entries 0 0) where
  each := by
    rw [laid_each]
    exact entries_each collect
  ranks := by
    rw [laid_ranks,collect.grouped.values_perm.length_eq,List.length_map,count,List.range_eq_range']
  local_ranks := by
    intro node
    by_cases present : node ∈ collect.entries.map Prod.fst
    · obtain ⟨entry,member,rfl⟩ := List.mem_map.mp present
      rw [laid_node collect.grouped.distinct member,← collect.grouped.values entry member]
    · rw [laid_absent present,valuesOf_eq_nil fun known => present ((collect.grouped.keys node).mpr known)]
      rfl
  local_size := by
    intro c member
    obtain ⟨i,entry,there,node,-,-,count⟩ := mem_laid member
    rw [count,node,collect.grouped.values entry (List.mem_of_getElem? there)]
  cross_same := by
    intro c member other member' same
    obtain ⟨i,entry,there,node,rank,-⟩ := mem_laid member
    obtain ⟨j,entry',there',node',rank',-⟩ := mem_laid member'
    rw [rank,rank',(entry_node collect there there').mp (node.symm.trans (same.trans node'))]
  cross_distinct := by
    intro c member other member' apart same
    obtain ⟨i,entry,there,node,rank,-⟩ := mem_laid member
    obtain ⟨j,entry',there',node',rank',-⟩ := mem_laid member'
    have equal : i = j := by omega
    exact apart (node.trans (((entry_node collect there there').mpr equal).trans node'.symm))
  cross_below := by
    intro c member
    obtain ⟨i,entry,there,node,rank,size,-⟩ := mem_laid member
    omega
  cross_size := by
    intro c member
    obtain ⟨i,entry,there,node,rank,size',-⟩ := mem_laid member
    have within := (List.getElem?_eq_some_iff.mp there).1
    rw [← collect.length_eq]
    omega

/-- The ranks of a dispatch are right exactly when it uses one node at most. -/
theorem deepspeed_ranked (submit : Submit) {dispatched : List (ErServerNode × ErProcessor)}
    (collect : Listing dispatched) (count : dispatched.length = submit.worldSize) (valid : Valid dispatched) :
    (∃ configs, assignRanks submit collect = .ok configs ∧ Ranked submit.worldSize dispatched configs) ↔
      ∀ pair ∈ dispatched, ∀ other ∈ dispatched, pair.1 = other.1 := by
  rw [← one_node collect]
  constructor
  · rintro ⟨configs,given,ranked⟩
    cases (assignRanks_eq collect valid).symm.trans given
    cases listed : collect.entries with
    | nil => exact Nat.zero_le 1
    | cons first rest =>
      -- the first container of the first node is told of one node
      have inside : first ∈ collect.entries := listed ▸ List.mem_cons_self
      obtain ⟨p,ps,several⟩ := List.exists_cons_of_ne_nil (collect.grouped.nonempty inside)
      have told := ranked.cross_size _ (by rw [listed,laid,several]; exact List.mem_cons_self)
      rw [← collect.length_eq,listed] at told
      exact Nat.le_of_eq told.symm
  · exact fun few => ⟨_,assignRanks_eq collect valid,laid_ranked collect count few⟩

end

private theorem valid_of_used {dispatched : List (ErServerNode × ErProcessor)}
    (used : ∀ node ∈ dispatched.map Prod.fst, ∃ devices,
      visibleDevices (valuesOf node dispatched) = .ok devices ∧ devices.Nodup) : Valid dispatched := by
  intro node
  by_cases present : node ∈ dispatched.map Prod.fst
  · exact used node present
  · rw [valuesOf_eq_nil present]
    exact ⟨[],rfl,List.nodup_nil⟩

def exampleNode (id : Int) : ErServerNode := ⟨id,"host",[]⟩

def gpuProcessor (id : Int) (device : String) : ErProcessor := ⟨id,[("cudaVisibleDevices",device)]⟩

def onOneNode : List (ErServerNode × ErProcessor) :=
  [(exampleNode 1,gpuProcessor 10 "0"),(exampleNode 1,gpuProcessor 11 "3")]

theorem deepspeed_ranked_one : ∃ configs, assignRanks ⟨2,"session"⟩ ⟨group onOneNode,.refl _⟩ = .ok configs ∧
    Ranked 2 onOneNode configs := by
  refine (deepspeed_ranked ⟨2,"session"⟩ ⟨group onOneNode,.refl _⟩ rfl (valid_of_used fun node used => ?_)).mpr ?_
  · have this : node = exampleNode 1 := by simpa [onOneNode] using used
    subst this
    exact ⟨[0,3],by decide +kernel,by decide⟩
  · decide

def onTwoNodes : List (ErServerNode × ErProcessor) :=
  [(exampleNode 1,gpuProcessor 10 "0"),(exampleNode 2,gpuProcessor 11 "0")]

/-- The first of two nodes is told that the cross group has one member. -/
theorem deepspeed_two_nodes : ¬ ∀ submit dispatched (collect : Listing dispatched),
    dispatched.length = submit.worldSize → Valid dispatched →
      ∃ configs, assignRanks submit collect = .ok configs ∧ Ranked submit.worldSize dispatched configs := by
  intro always
  have valid : Valid onTwoNodes := valid_of_used fun node used => by
    have this : node = exampleNode 1 ∨ node = exampleNode 2 := by simpa [onTwoNodes] using used
    rcases this with rfl | rfl
    · exact ⟨[0],by decide +kernel,by decide⟩
    · exact ⟨[0],by decide +kernel,by decide⟩
  obtain ⟨configs,given,ranked⟩ := always ⟨2,"session"⟩ onTwoNodes ⟨group onTwoNodes,.refl _⟩ rfl valid
  cases (assignRanks_eq _ valid).symm.trans given
  have told := ranked.cross_size _ List.mem_cons_self
  exact absurd told (by decide)

end Eggroll.DeepspeedRanks
