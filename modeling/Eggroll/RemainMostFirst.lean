import Eggroll.NodePlacing
import Eggroll.ResourceAdmission

/-! `remainMostFirstDispatch`: the first processor goes to a node with the most units, and
as nothing counts the units given to it and the sort is turned round, all others go to a node
with the fewest. -/
namespace Eggroll.ResourceDispatch
open ResourceApplication

/-- The totals of the resources are longs. -/
def Longs (nodes : List ErServerNode) : Prop :=
  ∀ node ∈ nodes, ∀ r ∈ node.resources, -(2 ^ 63) ≤ r.total ∧ r.total < 2 ^ 63

private theorem long_range (x : Int) : -(2 ^ 63) ≤ long x ∧ long x < 2 ^ 63 := by
  have low : -((2 ^ 64 : ℕ) / 2 : Int) ≤ long x := Int.le_bmod (by decide)
  have high : long x < ((2 ^ 64 : ℕ) + 1) / 2 := Int.bmod_lt (by decide)
  omega

section
variable {nodes : List ErServerNode} {app : ResourceApplication}

private theorem getUnAllocatedResource_range {r : ErResource} (total : -(2 ^ 63) ≤ r.total ∧ r.total < 2 ^ 63) :
    -(2 ^ 63) ≤ r.getUnAllocatedResource ∧ r.getUnAllocatedResource < 2 ^ 63 := by
  unfold ErResource.getUnAllocatedResource
  dsimp only
  split
  · exact long_range _
  · split
    · exact long_range _
    · exact total

private theorem amount_range (app : ResourceApplication) (longs : Longs nodes) (j : ℕ) :
    -(2 ^ 63) ≤ amount nodes app j ∧ amount nodes app j < 2 ^ 63 := by
  unfold amount
  cases there : nodes[j]? with
  | none => simp
  | some node =>
    rw [Option.map_some,Option.getD_some,getFirstUnAllocatedResource]
    split
    · rename_i r found
      exact getUnAllocatedResource_range (longs node (List.mem_of_getElem? there) r (List.mem_of_find?_eq_some found))
    · decide

private theorem sortNodes_key (nodes : List ErServerNode) (app : ResourceApplication) (sign : Int) (i : ℕ) :
    (nodes[i]?.map fun node => long (sign * getFirstUnAllocatedResource node app)).getD 0 =
      long (sign * amount nodes app i) := by
  unfold amount
  cases nodes[i]? with
  | none => simp [long]
  | some node => rfl

private theorem sortNodes_pairwise (nodes : List ErServerNode) (app : ResourceApplication) (sign : Int) (tupes : List ℕ) :
    (sortNodes nodes app sign tupes).Pairwise fun i j =>
      long (sign * amount nodes app i) ≤ long (sign * amount nodes app j) := by
  have ordered := List.pairwise_insertionSort (fun i j => long (sign * amount nodes app i) ≤
    long (sign * amount nodes app j)) tupes
  simp only [← sortNodes_key] at ordered ⊢
  exact ordered

private theorem greatest_of_last {α : Type} {key : α → Int} {items : List α}
    (ordered : items.Pairwise fun x y => key x ≤ key y) {x : α} (last : items.getLast? = some x) :
    x ∈ items ∧ ∀ y ∈ items, key y ≤ key x := by
  obtain ⟨front,rfl⟩ := List.getLast?_eq_some_iff.mp last
  refine ⟨by simp,fun y member => ?_⟩
  rcases List.mem_append.mp member with before | here
  · exact (List.pairwise_append.mp ordered).2.2 y before x (by simp)
  · rw [List.mem_singleton.mp here]

private theorem mem_sortNodes {sign : Int} {tupes : List ℕ} (all : tupes.Perm (List.range nodes.length)) {i : ℕ} :
    i ∈ sortNodes nodes app sign tupes ↔ i < nodes.length := by
  rw [((sortNodes_perm nodes app sign tupes).trans all).mem_iff,List.mem_range]

private theorem upwards_pairwise (longs : Longs nodes) (tupes : List ℕ) :
    (sortNodes nodes app 1 tupes).Pairwise fun i j => amount nodes app i ≤ amount nodes app j := by
  refine (sortNodes_pairwise nodes app 1 tupes).imp fun {i j} below => ?_
  have range_i := amount_range app longs i
  have range_j := amount_range app longs j
  rwa [Int.one_mul,Int.one_mul,long_of_range range_i.1 range_i.2,long_of_range range_j.1 range_j.2] at below

private theorem upwards_last (longs : Longs nodes) {i : ℕ}
    (last : (sortNodes nodes app 1 (List.range nodes.length)).getLast? = some i) :
    i < nodes.length ∧ ∀ j < nodes.length, amount nodes app j ≤ amount nodes app i := by
  obtain ⟨member,greatest⟩ := greatest_of_last (upwards_pairwise longs _) last
  exact ⟨(mem_sortNodes (.refl _)).mp member,fun j less => greatest j ((mem_sortNodes (.refl _)).mpr less)⟩

private theorem long_neg {x : Int} (low : -(2 ^ 63) ≤ x) (high : x < 2 ^ 63) :
    long (-1 * x) = if x = -(2 ^ 63) then -(2 ^ 63) else -x := by
  split
  · rename_i least
    rw [least]
    decide
  · rw [long_of_range (by omega) (by omega)]
    omega

private theorem downwards_last (longs : Longs nodes) {tupes : List ℕ} (all : tupes.Perm (List.range nodes.length)) {i : ℕ}
    (last : (sortNodes nodes app (-1) tupes).getLast? = some i) :
    i < nodes.length ∧ ∀ j < nodes.length, amount nodes app j = -(2 ^ 63) ∨
      amount nodes app i ≠ -(2 ^ 63) ∧ amount nodes app i ≤ amount nodes app j := by
  obtain ⟨member,greatest⟩ := greatest_of_last (sortNodes_pairwise nodes app (-1) _) last
  refine ⟨(mem_sortNodes all).mp member,fun j less => ?_⟩
  have below := greatest j ((mem_sortNodes all).mpr less)
  have range_i := amount_range app longs i
  have range_j := amount_range app longs j
  rw [long_neg range_i.1 range_i.2,long_neg range_j.1 range_j.2] at below
  split at below <;> split at below <;> omega

private theorem downwards_same (longs : Longs nodes)
    (equal : ∀ i < nodes.length, ∀ j < nodes.length, amount nodes app i = -(2 ^ 63) ∨ amount nodes app j = -(2 ^ 63) ∨
      amount nodes app i = amount nodes app j) :
    sortNodes nodes app (-1) (sortNodes nodes app 1 (List.range nodes.length)) =
      sortNodes nodes app 1 (List.range nodes.length) := by
  have ordered : (sortNodes nodes app 1 (List.range nodes.length)).Pairwise fun i j =>
      long (-1 * amount nodes app i) ≤ long (-1 * amount nodes app j) := by
    refine (upwards_pairwise longs _).imp_of_mem fun {i j} member_i member_j below => ?_
    have apart := equal i ((mem_sortNodes (.refl _)).mp member_i) j ((mem_sortNodes (.refl _)).mp member_j)
    have range_i := amount_range app longs i
    have range_j := amount_range app longs j
    rw [long_neg range_i.1 range_i.2,long_neg range_j.1 range_j.2]
    split <;> split <;> omega
  simp only [← sortNodes_key] at ordered
  exact ordered.insertionSort_eq

/-- The node of the first processor and the node of all others. -/
structure Ends (nodes : List ErServerNode) (app : ResourceApplication) (top bottom : ℕ) : Prop where
  top_inside : top < nodes.length
  bottom_inside : bottom < nodes.length
  most : ∀ j < nodes.length, amount nodes app j ≤ amount nodes app top
  fewest : ∀ j < nodes.length, amount nodes app j = -(2 ^ 63) ∨
    amount nodes app bottom ≠ -(2 ^ 63) ∧ amount nodes app bottom ≤ amount nodes app j
  same : (∀ i < nodes.length, ∀ j < nodes.length, amount nodes app i = -(2 ^ 63) ∨ amount nodes app j = -(2 ^ 63) ∨
    amount nodes app i = amount nodes app j) → bottom = top

private theorem remainMostFirst_zero : remainMostFirst nodes app 0 = (sortNodes nodes app 1 (List.range nodes.length)).getLast? := by
  simp [remainMostFirst]

private theorem remainMostFirst_succ {p : ErProcessor} (first : app.processors[0]? = some p) (asks : p.resources ≠ []) (k : ℕ) :
    remainMostFirst nodes app (k + 1) =
      (sortNodes nodes app (-1) (sortNodes nodes app 1 (List.range nodes.length))).getLast? := by
  have turned : (app.processors.take (k + 1)).any (fun p => !p.resources.isEmpty) = true := by
    refine List.any_eq_true.mpr ⟨p,?_,by simpa using asks⟩
    refine List.mem_of_getElem? (i := 0) ?_
    rw [List.getElem?_take_of_lt (Nat.succ_pos k),first]
  rw [remainMostFirst,if_pos turned]

private theorem ends_exist (app : ResourceApplication) (longs : Longs nodes) (some_node : nodes ≠ []) : ∃ top bottom, Ends nodes app top bottom ∧
    (sortNodes nodes app 1 (List.range nodes.length)).getLast? = some top ∧
    (sortNodes nodes app (-1) (sortNodes nodes app 1 (List.range nodes.length))).getLast? = some bottom := by
  have upwards := sortNodes_perm nodes app 1 (List.range nodes.length)
  have downwards := sortNodes_perm nodes app (-1) (sortNodes nodes app 1 (List.range nodes.length))
  have length := List.length_pos_iff.mpr some_node
  have up_some : sortNodes nodes app 1 (List.range nodes.length) ≠ [] := by
    rw [← List.length_pos_iff,upwards.length_eq,List.length_range]
    exact length
  have down_some : sortNodes nodes app (-1) (sortNodes nodes app 1 (List.range nodes.length)) ≠ [] := by
    rw [← List.length_pos_iff,downwards.length_eq]
    exact List.length_pos_iff.mpr up_some
  obtain ⟨top,at_top⟩ := Option.ne_none_iff_exists'.mp (mt List.getLast?_eq_none_iff.mp up_some)
  obtain ⟨bottom,at_bottom⟩ := Option.ne_none_iff_exists'.mp (mt List.getLast?_eq_none_iff.mp down_some)
  obtain ⟨top_inside,most⟩ := upwards_last longs at_top
  obtain ⟨bottom_inside,fewest⟩ := downwards_last longs upwards at_bottom
  refine ⟨top,bottom,⟨top_inside,bottom_inside,most,fewest,fun equal => ?_⟩,at_top,at_bottom⟩
  rw [downwards_same longs equal,at_top] at at_bottom
  exact (Option.some.inj at_bottom).symm

end

/-- Each processor is at a node that has the most units left when it is placed, and no node gets
more processors than it has units. -/
structure MostFirst (nodes : List ErServerNode) (app : ResourceApplication) (spot : ℕ → ℕ) : Prop where
  most : ∀ k < app.processors.length, ∀ j < nodes.length,
    amount nodes app j - given k spot j ≤ amount nodes app (spot k) - given k spot (spot k)
  capacity : ∀ j, given app.processors.length spot j ≤ (amount nodes app j).toNat

/-- There are no processors, one processor and a node with a unit, only one node that counts and
it has units for all, or two processors and one node with one unit more than the others, which
have one at least. The least long does not count: the sort takes its negation for itself. -/
def Balanced (nodes : List ErServerNode) (app : ResourceApplication) : Prop :=
  let n := app.processors.length
  n = 0 ∨ (n = 1 ∧ ∃ j < nodes.length, 1 ≤ amount nodes app j) ∨
    (∃ j < nodes.length, n ≤ amount nodes app j ∧
      ∀ i < nodes.length, i ≠ j → amount nodes app i = -(2 ^ 63)) ∨
    (n = 2 ∧ ∃ j < nodes.length, ∃ j' < nodes.length, 1 ≤ amount nodes app j' ∧
      amount nodes app j = amount nodes app j' + 1 ∧
      ∀ i < nodes.length, i ≠ j → amount nodes app i = amount nodes app j' ∨ amount nodes app i = -(2 ^ 63))

section
variable {nodes : List ErServerNode} {app : ResourceApplication} {spot : ℕ → ℕ} {top bottom : ℕ}

private theorem given_ends {n : ℕ} (first : 0 < n → spot 0 = top) (others : ∀ k, k + 1 < n → spot (k + 1) = bottom) {k : ℕ}
    (within : k + 1 ≤ n) (j : ℕ) :
    given (k + 1) spot j = (if top = j then 1 else 0) + if bottom = j then k else 0 := by
  induction k with
  | zero => rw [given_succ,first within]; simp [given]
  | succ k ih =>
    rw [given_succ,ih (by omega),others k within]
    split <;> split <;> omega

private theorem mostFirst_balanced (ends : Ends nodes app top bottom) (first : spot 0 = top)
    (others : ∀ k, k + 1 < app.processors.length → spot (k + 1) = bottom) (several : 2 ≤ app.processors.length)
    (policy : MostFirst nodes app spot) : Balanced nodes app := by
  have counts {k : ℕ} (within : k + 1 ≤ app.processors.length) := given_ends (fun _ => first) others within
  obtain ⟨n,length⟩ : ∃ n, app.processors.length = n + 2 := ⟨app.processors.length - 2,by omega⟩
  have all (j : ℕ) : given app.processors.length spot j =
      (if top = j then 1 else 0) + if bottom = j then n + 1 else 0 := by
    rw [length]
    exact counts (by omega) j
  have second (j : ℕ) (inside : j < nodes.length) := policy.most 1 (by omega) j inside
  rw [others 0 (by omega)] at second
  have cap_top := policy.capacity top
  have cap_bottom := policy.capacity bottom
  rw [all] at cap_top cap_bottom
  by_cases same : bottom = top
  · subst same
    refine .inr (.inr (.inl ⟨bottom,ends.bottom_inside,by simp at cap_top; omega,fun i inside other => ?_⟩))
    have here := second i inside
    rw [counts (by omega),counts (by omega),if_neg (Ne.symm other),if_pos rfl] at here
    rcases ends.fewest i inside with least | ⟨-,le⟩
    · exact least
    · split at here <;> omega
  · rw [if_neg (Ne.symm same),if_pos rfl] at cap_bottom
    have near (i : ℕ) (inside : i < nodes.length) (other : i ≠ top) :
        amount nodes app i = amount nodes app bottom ∨ amount nodes app i = -(2 ^ 63) := by
      have here := second i inside
      rw [counts (by omega),counts (by omega),if_neg (Ne.symm other),if_neg (Ne.symm same)] at here
      rcases ends.fewest i inside with least | ⟨-,le⟩
      · exact .inr least
      · refine .inl ?_
        split at here <;> split at here <;> omega
    have apart : amount nodes app top ≠ amount nodes app bottom := by
      intro equal
      refine same (ends.same fun i inside j within => ?_)
      have at_i := if top_i : i = top then .inl (top_i ▸ equal) else near i inside top_i
      have at_j := if top_j : j = top then .inl (top_j ▸ equal) else near j within top_j
      omega
    have least := ends.most bottom ends.bottom_inside
    have here := second top ends.top_inside
    rw [counts (by omega),counts (by omega),if_pos rfl,if_neg (Ne.symm same),if_neg same] at here
    refine .inr (.inr (.inr ⟨?_,top,ends.top_inside,bottom,ends.bottom_inside,by omega,by omega,near⟩))
    by_contra more
    have third := policy.most 2 (by omega) top ends.top_inside
    rw [others 1 (by omega),counts (k := 1) (by omega),counts (k := 1) (by omega),if_pos rfl,if_neg (Ne.symm same),
      if_neg same,if_pos rfl] at third
    omega

private theorem balanced_mostFirst (ends : Ends nodes app top bottom) (first : spot 0 = top)
    (others : ∀ k, k + 1 < app.processors.length → spot (k + 1) = bottom) (some_processor : 0 < app.processors.length)
    (balanced : Balanced nodes app) : MostFirst nodes app spot := by
  have counts {k : ℕ} (within : k + 1 ≤ app.processors.length) := given_ends (fun _ => first) others within
  have all (j : ℕ) : given app.processors.length spot j =
      (if top = j then 1 else 0) + if bottom = j then app.processors.length - 1 else 0 := by
    rw [← counts (by omega) j,Nat.sub_add_cancel some_processor]
  -- what is left to show of the policy is about the processors after the first
  have of_later (later : ∀ k, k + 1 < app.processors.length → ∀ j < nodes.length,
      amount nodes app j - given (k + 1) spot j ≤ amount nodes app bottom - given (k + 1) spot bottom) :
      ∀ k < app.processors.length, ∀ j < nodes.length,
        amount nodes app j - given k spot j ≤ amount nodes app (spot k) - given k spot (spot k) := by
    rintro (_ | k) less j inside
    · rw [first]
      simpa [given] using ends.most j inside
    · rw [others k less]
      exact later k less j inside
  rcases balanced with none_there | ⟨single,j,inside,unit⟩ | ⟨j,inside,room,least⟩ |
    ⟨two,j,inside,j',inside',unit,more,near⟩
  · omega
  · have top_most := ends.most j inside
    refine ⟨of_later fun k less => by omega,fun i => ?_⟩
    rw [all,single]
    split
    · rename_i here
      subst here
      split <;> omega
    · split <;> omega
  · have top_is : top = j := by
      by_contra other
      have := least top ends.top_inside other
      have := ends.most j inside
      omega
    have bottom_is : bottom = j := by
      by_contra other
      have := least bottom ends.bottom_inside other
      have := ends.fewest j inside
      omega
    refine ⟨of_later fun k less i within => ?_,fun i => ?_⟩
    · rw [counts (by omega),counts (by omega),top_is,bottom_is]
      by_cases here : i = j
      · rw [here]
      · have := least i within here
        split <;> split <;> omega
    · rw [all,top_is,bottom_is]
      by_cases here : j = i
      · subst here
        split <;> omega
      · rw [if_neg here,if_neg here]
        exact Nat.zero_le _
  · have top_is : top = j := by
      by_contra other
      have := near top ends.top_inside other
      have := ends.most j inside
      omega
    have fewest := ends.fewest j' inside'
    have bottom_not : bottom ≠ j := by
      intro here
      rw [here] at fewest
      omega
    have bottom_is : amount nodes app bottom = amount nodes app j' := by
      have := near bottom ends.bottom_inside bottom_not
      omega
    refine ⟨of_later fun k less i within => ?_,fun i => ?_⟩
    · obtain rfl : k = 0 := by omega
      rw [counts (by omega),counts (by omega),top_is,if_neg (Ne.symm bottom_not)]
      by_cases here : j = i
      · subst here
        split <;> split <;> omega
      · have := near i within (Ne.symm here)
        rw [if_neg here]
        split <;> split <;> omega
    · rw [all,two,top_is]
      by_cases here : j = i
      · subst here
        rw [if_neg bottom_not,if_pos rfl]
        omega
      · rw [if_neg here]
        split
        · rename_i there
          rw [← there,bottom_is]
          omega
        · omega

private theorem most_of_rows (setting : Setting) (rows : ∀ node ∈ nodes, node.resources ≠ []) :
    remainMostFirstDispatch setting nodes app =
      finish setting (placeAll (remainMostFirst nodes app) app.processors 0 (begin nodes app)) := by
  rw [remainMostFirstDispatch,if_neg (by simpa using rows)]

theorem rows_of_most {setting : Setting} (normal : (remainMostFirstDispatch setting nodes app).2 = none) :
    ∀ node ∈ nodes, node.resources ≠ [] := by
  intro node member none_there
  have missing : nodes.any (fun node => node.resources.isEmpty) = true :=
    List.any_eq_true.mpr ⟨node,member,by rw [none_there]; rfl⟩
  rw [remainMostFirstDispatch,if_pos missing] at normal
  cases normal

/-- The dispatch keeps to its policy and to the capacities just where the two nodes that it
uses allow this. -/
theorem remain_most_first_exact (setting : Setting) (longs : Longs nodes)
    (one : ∀ p ∈ app.processors, OneUnit app.sortByResourceType p) :
    (∃ spot, (∀ k < app.processors.length, remainMostFirst nodes app k = some (spot k)) ∧
        Assigned nodes app (remainMostFirstDispatch setting nodes app) spot ∧ MostFirst nodes app spot) ↔
      (∀ node ∈ nodes, node.resources ≠ []) ∧ Balanced nodes app := by
  have asks {p : ErProcessor} (member : p ∈ app.processors) : p.resources ≠ [] := by
    intro none_asked
    have unit := one p member
    rw [OneUnit,none_asked] at unit
    cases unit
  -- with a processor and a node, the loop goes to the two ends
  have goes (some_node : nodes ≠ []) (some_processor : 0 < app.processors.length) : ∃ top bottom,
      Ends nodes app top bottom ∧ remainMostFirst nodes app 0 = some top ∧
        ∀ k, remainMostFirst nodes app (k + 1) = some bottom := by
    obtain ⟨top,bottom,ends,at_top,at_bottom⟩ := ends_exist app longs some_node
    refine ⟨top,bottom,ends,remainMostFirst_zero.trans at_top,fun k => ?_⟩
    have first := List.getElem?_eq_getElem some_processor
    exact (remainMostFirst_succ first (asks (List.getElem_mem some_processor)) k).trans at_bottom
  constructor
  · rintro ⟨spot,chosen,assigned,policy⟩
    refine ⟨rows_of_most assigned.normal,?_⟩
    rcases Nat.lt_or_ge app.processors.length 1 with none_there | some_processor
    · exact .inl (by omega)
    · have inside := assigned.inside 0 some_processor
      have some_node : nodes ≠ [] := List.length_pos_iff.mp (Nat.lt_of_le_of_lt (Nat.zero_le _) inside)
      obtain ⟨top,bottom,ends,at_top,at_bottom⟩ := goes some_node some_processor
      have first : spot 0 = top := Option.some.inj ((chosen 0 some_processor).symm.trans at_top)
      have others (k : ℕ) (less : k + 1 < app.processors.length) : spot (k + 1) = bottom :=
        Option.some.inj ((chosen (k + 1) less).symm.trans (at_bottom k))
      rcases Nat.lt_or_ge app.processors.length 2 with single | several
      · have unit := policy.capacity (spot 0)
        have length : app.processors.length = 0 + 1 := by omega
        rw [length,given_succ,if_pos rfl] at unit
        exact .inr (.inl ⟨length,spot 0,inside,by omega⟩)
      · exact mostFirst_balanced ends first others several policy
  · rintro ⟨rows,balanced⟩
    let spot (k : ℕ) : ℕ := (remainMostFirst nodes app k).getD 0
    rw [most_of_rows setting rows]
    rcases Nat.lt_or_ge app.processors.length 1 with none_there | some_processor
    · have chosen (k : ℕ) (less : k < app.processors.length) : remainMostFirst nodes app k = some (spot k) := by omega
      refine ⟨spot,chosen,assigned_of_chosen setting chosen fun k less => by omega,fun k less => by omega,fun j => ?_⟩
      rw [Nat.lt_one_iff.mp none_there]
      exact Nat.zero_le _
    · have some_node : nodes ≠ [] := by
        rintro rfl
        rcases balanced with none_there | ⟨-,j,inside,-⟩ | ⟨j,inside,-⟩ | ⟨-,j,inside,-⟩
        · omega
        all_goals exact absurd inside (Nat.not_lt_zero _)
      obtain ⟨top,bottom,ends,at_top,at_bottom⟩ := goes some_node some_processor
      have first : spot 0 = top := by simp [spot,at_top]
      have others (k : ℕ) : spot (k + 1) = bottom := by simp [spot,at_bottom]
      have chosen (k : ℕ) (_ : k < app.processors.length) : remainMostFirst nodes app k = some (spot k) := by
        cases k with
        | zero => rw [first,at_top]
        | succ k => rw [others,at_bottom]
      have inside (k : ℕ) (_ : k < app.processors.length) : spot k < nodes.length := by
        cases k with
        | zero => exact first ▸ ends.top_inside
        | succ k => exact others k ▸ ends.bottom_inside
      exact ⟨spot,chosen,assigned_of_chosen setting chosen inside,
        balanced_mostFirst ends first (fun k _ => others k) some_processor balanced⟩

end

theorem remain_most_first_two : ∃ spot,
    (∀ k < 2, remainMostFirst [coreNode 1 2,coreNode 2 3] (coreRequest 2 Dict.REMAIN_MOST_FIRST) k = some (spot k)) ∧
    Assigned [coreNode 1 2,coreNode 2 3] (coreRequest 2 Dict.REMAIN_MOST_FIRST)
      (remainMostFirstDispatch inOrder [coreNode 1 2,coreNode 2 3] (coreRequest 2 Dict.REMAIN_MOST_FIRST)) spot ∧
    MostFirst [coreNode 1 2,coreNode 2 3] (coreRequest 2 Dict.REMAIN_MOST_FIRST) spot := by
  have longs : Longs [coreNode 1 2,coreNode 2 3] := by unfold Longs; decide
  have one : ∀ p ∈ (coreRequest 2 Dict.REMAIN_MOST_FIRST).processors,
      OneUnit (coreRequest 2 Dict.REMAIN_MOST_FIRST).sortByResourceType p := by unfold OneUnit; decide +kernel
  have balanced : Balanced [coreNode 1 2,coreNode 2 3] (coreRequest 2 Dict.REMAIN_MOST_FIRST) :=
    .inr (.inr (.inr ⟨rfl,1,by decide,0,by decide,by decide +kernel⟩))
  exact (remain_most_first_exact inOrder longs one).mpr ⟨by decide,balanced⟩

/-- With one core and three, the second and the third processor go to the node with one core. -/
theorem remain_most_first_reversed : ¬ ∀ perNode order setting nodes app app',
    checkResourceEnough perNode order (some nodes) app = .ok (true,app') → Longs nodes →
    (∀ p ∈ app.processors, OneUnit app.sortByResourceType p) →
      ∃ spot, (∀ k < app.processors.length, remainMostFirst nodes app k = some (spot k)) ∧
        Assigned nodes app (remainMostFirstDispatch setting nodes app) spot ∧ MostFirst nodes app spot := by
  intro all
  let app := coreRequest 3 Dict.REMAIN_MOST_FIRST
  have longs : Longs [coreNode 1 1,coreNode 2 3] := by unfold Longs; decide
  have one : ∀ p ∈ app.processors, OneUnit app.sortByResourceType p := by unfold OneUnit; decide +kernel
  obtain ⟨spot,chosen,-,policy⟩ := all 1 id inOrder [coreNode 1 1,coreNode 2 3] app app (by decide +kernel) longs one
  have first : some 1 = some (spot 0) := Eq.trans (by decide +kernel) (chosen 0 (by decide))
  have second : some 0 = some (spot 1) := Eq.trans (by decide +kernel) (chosen 1 (by decide))
  have third : some 0 = some (spot 2) := Eq.trans (by decide +kernel) (chosen 2 (by decide))
  have counted : given app.processors.length spot 0 = 2 := by
    change ((List.range 3).map spot).count 0 = 2
    rw [show (List.range 3).map spot = [spot 0,spot 1,spot 2] from rfl,← Option.some.inj first,
      ← Option.some.inj second,← Option.some.inj third]
    rfl
  have below := policy.capacity 0
  rw [counted] at below
  exact absurd below (by decide +kernel)

end Eggroll.ResourceDispatch
