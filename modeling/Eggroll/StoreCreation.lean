import Mathlib.Data.List.Nodup
import Eggroll.StoreCrud

/-! Concurrent `doGetOrCreateStore` and `doDeleteStore` requests: every call into the
database is one step, the locks are those of `storeLockCache`. -/
namespace Eggroll.StoreCreation
open Library StoreCrud
open Program hiding call

abbrev StoreName := String × String

def StoreLocator.storeName (row : StoreLocator) : StoreName := (row.nameSpace,row.name)

def IsNormal (name : StoreName) (row : StoreLocator) : Prop :=
  row.status = .NORMAL ∧ StoreLocator.storeName row = name

instance (name : StoreName) (row : StoreLocator) : Decidable (IsNormal name row) := inferInstanceAs (Decidable (_ ∧ _))

def Exists (db : Metadata) (name : StoreName) : Prop := ∃ row ∈ db.locators, IsNormal name row

instance (db : Metadata) (name : StoreName) : Decidable (Exists db name) := inferInstanceAs (Decidable (∃ _ ∈ _, _))

/-- The metadata and the locks. The other fields are history: the key that a request has
locked, how many deletions have met a name, who creates a name (it has found nothing and has
not left), who creates a locator, of which name and after how many deletions it was made, and
the counts of deletions when a request took its lock and when it left. -/
structure State where
  db : Metadata
  locks : String → Option ℕ
  holding : ℕ → String
  deletions : StoreName → ℕ
  creator : StoreName → Option ℕ
  opened : ℕ → Option ℕ
  origin : ℕ → StoreName × ℕ
  since : ℕ → StoreName → ℕ
  upto : ℕ → StoreName → ℕ

namespace State

def init : State :=
  ⟨.empty,fun _ => none,fun _ => "",fun _ => 0,fun _ => none,fun _ => none,fun _ => (("",""),0),fun _ _ => 0,fun _ _ => 0⟩

def lock (s : State) (id : ℕ) (key : String) : State :=
  { s with
    locks := Function.update s.locks key (some id)
    holding := Function.update s.holding id key
    since := Function.update s.since id s.deletions }

def unLock (s : State) (id : ℕ) (key : String) : State :=
  { s with
    locks := Function.update s.locks key none
    creator := fun name => if s.creator name = some id then none else s.creator name
    opened := fun row => if s.opened row = some id then none else s.opened row
    upto := Function.update s.upto id s.deletions }

def found_none (s : State) (id : ℕ) (name : StoreName) : State :=
  { s with creator := Function.update s.creator name (some id) }

def counted (s : State) (db : Metadata) (name : StoreName) : ℕ :=
  if Exists s.db name ∧ ¬ Exists db name then s.deletions name + 1 else s.deletions name

def advance (s : State) (id : ℕ) (db : Metadata) : Op → State
  | .listLocators nameSpace name none =>
    if Exists s.db (nameSpace,name) then { s with db := db } else { s.found_none id (nameSpace,name) with db := db }
  | .saveLocator row =>
    if db.nextId = s.db.nextId then { s with db := db }
    else { s with
      db := db
      opened := Function.update s.opened s.db.nextId (some id)
      origin := Function.update s.origin s.db.nextId
        (StoreLocator.storeName row,s.deletions (StoreLocator.storeName row)) }
  | .deleteAll _ _ _ | .deleteLocator _ _ =>
    { s with db := db, deletions := s.counted db }
  | _ => { s with db := db }

/-- The calls of one request. -/
def serve (id : ℕ) : Service State Op Ans Failure Env := fun s op env =>
  match op with
  | .lock key => if s.locks key = none then some (s.lock id key,.ok ()) else none
  | .unLock key => some (s.unLock id key,.ok ())
  | op =>
    match Metadata.serve s.db op env with
    | none => none
    | some (db,.ok a) => some (s.advance id db op,.ok a)
    | some (db,.error e) => some ({ s with db := db },.error e)

end State

inductive Request
  | getOrCreate (input : ErStore)
  | delete (input : ErStore)
deriving Repr, DecidableEq

def Request.program : Request → Crud (Option ErStore)
  | .getOrCreate input => do
    let store ← doGetOrCreateStore input
    pure (some store)
  | .delete input => doDeleteStore input

abbrev Run := Pool State Request Op Ans Failure (Option ErStore)

def system (serve : ℕ → Service State Op Ans Failure Env) : System Run (Pool.Act Request Env) :=
  Pool.system (fun s => s = State.init) Request.program serve

/-- When a request may make a call: it looks a store up while no request under another lock
key creates one of that name; a creation goes on without a failure once its locator is saved,
with nodes whose count times four is an `int`; and the unique index meets the new row with
no row of another name and no deleted one. -/
def orderly (id : ℕ) (s : State) (op : Op) (env : Env) : Bool :=
  match op with
  | .listLocators nameSpace name none =>
    (s.creator (nameSpace,name)).all fun other => s.holding other = s.holding id
  | .saveLocator row => s.db.locators.all fun other =>
      other.key ≠ row.key ∨ IsNormal (StoreLocator.storeName row) other
  | .listNodes => env.outcome ≠ .failed ∧ env.nodes ≠ [] ∧ env.nodes.length < 536870912
  | .savePartition _ => env.outcome = .done
  | .saveOption _ => env.outcome ≠ .failed
  | _ => true

/-- The same locator, but for its name and status. -/
structure Alike (row other : StoreLocator) : Prop where
  storeLocatorId : other.storeLocatorId = row.storeLocatorId
  storeType : other.storeType = row.storeType
  path : other.path = row.path
  totalPartitions : other.totalPartitions = row.totalPartitions
  keySerdesType : other.keySerdesType = row.keySerdesType
  valueSerdesType : other.valueSerdesType = row.valueSerdesType
  partitionerType : other.partitionerType = row.partitionerType

theorem Alike.refl (row : StoreLocator) : Alike row row := ⟨rfl,rfl,rfl,rfl,rfl,rfl,rfl⟩

theorem Alike.trans {row other third : StoreLocator} (first : Alike row other) (second : Alike other third) :
    Alike row third :=
  ⟨second.1.trans first.1,second.2.trans first.2,second.3.trans first.3,second.4.trans first.4,
    second.5.trans first.5,second.6.trans first.6,second.7.trans first.7⟩

structure Inv (s : State) : Prop where
  keys : (s.db.locators.map StoreLocator.key).Nodup
  ids : (s.db.locators.map StoreLocator.storeLocatorId).Nodup
  known : ∀ row ∈ s.db.locators, row.storeLocatorId < s.db.nextId
  covered : ∀ id < s.db.nextId, ∃ row ∈ s.db.locators, row.storeLocatorId = id
  owned : ∀ row ∈ s.db.partitions, row.storeLocatorId < s.db.nextId
  normal : ∀ row ∈ s.db.locators, row.status = .NORMAL →
    s.origin row.storeLocatorId = (StoreLocator.storeName row,s.deletions (StoreLocator.storeName row))
  deleted : ∀ row ∈ s.db.locators, row.status = .DELETED →
    (s.origin row.storeLocatorId).2 < s.deletions (s.origin row.storeLocatorId).1
  distinct : ∀ id < s.db.nextId, ∀ other < s.db.nextId, s.origin id = s.origin other → id = other
  creating : ∀ row ∈ s.db.locators, row.status = .NORMAL → ∀ id, s.opened row.storeLocatorId = some id →
    s.creator (StoreLocator.storeName row) = some id
  filled : ∀ id < s.db.nextId, s.opened id = none → s.db.partitionsOf id ≠ []
  held : ∀ name id, s.creator name = some id → s.locks (s.holding id) = some id
  begun : ∀ row id, s.opened row = some id → row < s.db.nextId

/-- What a request can rely on while others take steps. -/
structure Others (id : ℕ) (s t : State) : Prop where
  creator : ∀ name, t.creator name = some id ↔ s.creator name = some id
  locks : ∀ key, t.locks key = some id ↔ s.locks key = some id
  opened : ∀ row, t.opened row = some id ↔ s.opened row = some id
  holding : t.holding id = s.holding id
  since : t.since id = s.since id
  upto : t.upto id = s.upto id
  deletions : ∀ name, s.deletions name ≤ t.deletions name
  more : s.db.nextId ≤ t.db.nextId
  origin : ∀ row < s.db.nextId, t.origin row = s.origin row
  closed : ∀ row < s.db.nextId, s.opened row = none → t.opened row = none
  partitions : ∀ row < s.db.nextId, s.opened row = none ∨ s.opened row = some id →
    t.db.partitionsOf row = s.db.partitionsOf row
  locators : ∀ row ∈ s.db.locators, ∃ other ∈ t.db.locators, Alike row other
  free : ∀ name, s.creator name = some id → ¬ Exists s.db name → ¬ Exists t.db name

theorem Others.refl (id : ℕ) (s : State) : Others id s s where
  creator _ := Iff.rfl
  locks _ := Iff.rfl
  opened _ := Iff.rfl
  holding := rfl
  since := rfl
  upto := rfl
  deletions _ := Nat.le_refl _
  more := Nat.le_refl _
  origin _ _ := rfl
  closed _ _ closed := closed
  partitions _ _ _ := rfl
  locators row member := ⟨row,member,.refl row⟩
  free _ _ free := free

theorem Others.trans {id : ℕ} {s t u : State} (first : Others id s t) (second : Others id t u) :
    Others id s u where
  creator name := (second.creator name).trans (first.creator name)
  locks key := (second.locks key).trans (first.locks key)
  opened row := (second.opened row).trans (first.opened row)
  holding := second.holding.trans first.holding
  since := second.since.trans first.since
  upto := second.upto.trans first.upto
  deletions name := (first.deletions name).trans (second.deletions name)
  more := first.more.trans second.more
  origin row below := (second.origin row (below.trans_le first.more)).trans (first.origin row below)
  closed row below closed := second.closed row (below.trans_le first.more) (first.closed row below closed)
  partitions row below still := by
    have then_still : t.opened row = none ∨ t.opened row = some id :=
      still.imp (first.closed row below) (first.opened row).mpr
    exact (second.partitions row (below.trans_le first.more) then_still).trans (first.partitions row below still)
  locators row member := by
    obtain ⟨other,there,alike⟩ := first.locators row member
    obtain ⟨third,there',alike'⟩ := second.locators other there
    exact ⟨third,there',alike.trans alike'⟩
  free name mine free := second.free name ((first.creator name).mpr mine) (first.free name mine free)

def contract (id : ℕ) : Program.Contract State where
  invariant := Inv
  rely := Others id
  guarantee s t := ∀ other, other ≠ id → Others other s t
  refl := Others.refl id
  trans := Others.trans

/-- A request that has not begun. -/
structure Fresh (id : ℕ) (s : State) : Prop where
  creator : ∀ name, s.creator name ≠ some id
  locks : ∀ key, s.locks key ≠ some id
  opened : ∀ row, s.opened row ≠ some id

theorem Fresh.others {id : ℕ} {s t : State} (moved : Others id s t) (fresh : Fresh id s) : Fresh id t :=
  ⟨fun name mine => fresh.creator name ((moved.creator name).mp mine),
    fun key mine => fresh.locks key ((moved.locks key).mp mine),
    fun row mine => fresh.opened row ((moved.opened row).mp mine)⟩

theorem fit : Pool.Fit Inv contract Fresh where
  same _ := rfl
  others other _ _ guaranteed := guaranteed _ other
  fresh := Fresh.others

namespace Inv
variable {s : State}

private theorem row_eq (inv : Inv s) {row other : StoreLocator} (member : row ∈ s.db.locators)
    (member' : other ∈ s.db.locators) (key : row.key = other.key) : row = other :=
  List.inj_on_of_nodup_map inv.keys member member' key

private theorem normal_eq (inv : Inv s) {name : StoreName} {row other : StoreLocator} (member : row ∈ s.db.locators)
    (member' : other ∈ s.db.locators) (normal : IsNormal name row) (normal' : IsNormal name other) :
    row = other := by
  refine inv.row_eq member member' ?_
  have same := normal.2.trans normal'.2.symm
  simp only [StoreLocator.storeName,Prod.mk.injEq] at same
  rw [StoreLocator.key,StoreLocator.key,same.1,same.2]

theorem init : Inv State.init where
  keys := List.nodup_nil
  ids := List.nodup_nil
  known _ member := absurd member List.not_mem_nil
  covered _ below := absurd below (Nat.not_lt_zero _)
  owned _ member := absurd member List.not_mem_nil
  normal _ member := absurd member List.not_mem_nil
  deleted _ member := absurd member List.not_mem_nil
  distinct _ below := absurd below (Nat.not_lt_zero _)
  creating _ member := absurd member List.not_mem_nil
  filled _ below := absurd below (Nat.not_lt_zero _)
  held _ _ created := nomatch created
  begun _ _ opened := nomatch opened

end Inv

def Moves (id : ℕ) (s t : State) : Prop := Inv t ∧ ∀ other, other ≠ id → Others other s t

namespace Moves
variable {s : State} {id : ℕ}

theorem lock {key : String} (inv : Inv s) (unlocked : s.locks key = none)
    (idle : ∀ name, s.creator name ≠ some id) : Moves id s (s.lock id key) := by
  constructor
  · refine { inv with held := fun name other created => ?_ }
    have mine : other ≠ id := fun same => idle name (same ▸ created)
    have locked := inv.held name other created
    have apart : s.holding other ≠ key := by
      intro same
      rw [same,unlocked] at locked
      cases locked
    simp only [State.lock,Function.update_of_ne mine,Function.update_of_ne apart]
    exact locked
  · intro other apart
    refine { Others.refl other s with locks := fun k => ?_, holding := ?_, since := ?_ }
    · by_cases same : k = key
      · simp only [State.lock,same,Function.update_self,unlocked,reduceCtorEq,iff_false]
        exact fun is => apart (Option.some.inj is).symm
      · simp only [State.lock,Function.update_of_ne same]
    · exact Function.update_of_ne apart _ _
    · exact Function.update_of_ne apart _ _

theorem unLock {key : String} (inv : Inv s) (mine : s.locks key = some id)
    (full : ∀ row < s.db.nextId, s.opened row = some id → s.db.partitionsOf row ≠ []) :
    Moves id s (s.unLock id key) := by
  have kept {other : ℕ} (apart : other ≠ id) (created : Option ℕ) :
      (if created = some id then none else created) = some other ↔ created = some other := by
    split
    case isTrue is =>
      simp only [reduceCtorEq,is,Option.some.injEq,false_iff]
      exact fun same => apart same.symm
    case isFalse => exact Iff.rfl
  have gone {created : Option ℕ} : (if created = some id then none else created) ≠ some id := by
    split
    case isTrue => exact nofun
    case isFalse is => exact is
  constructor
  · refine { inv with creating := fun row member normal other opened => ?_
                      filled := fun row below closed => ?_
                      held := fun name other created => ?_
                      begun := fun row other opened => ?_ }
    · have apart : other ≠ id := fun same => gone (same ▸ opened)
      exact (kept apart _).mpr (inv.creating row member normal other ((kept apart _).mp opened))
    · by_cases own : s.opened row = some id
      · exact full row below own
      · exact inv.filled row below ((if_neg own).symm.trans closed)
    · have apart : other ≠ id := fun same => gone (same ▸ created)
      have locked := inv.held name other ((kept apart _).mp created)
      have different : s.holding other ≠ key := by
        intro same
        rw [same,mine] at locked
        exact apart (Option.some.inj locked).symm
      simp only [State.unLock,Function.update_of_ne different]
      exact locked
    · have apart : other ≠ id := fun same => gone (same ▸ opened)
      exact inv.begun row other ((kept apart _).mp opened)
  · intro other apart
    refine { Others.refl other s with
      creator := fun name => kept apart _
      opened := fun row => kept apart _
      locks := fun k => ?_
      upto := Function.update_of_ne apart _ _
      closed := fun row _ closed => ?_
      partitions := fun _ _ _ => rfl
      free := fun _ _ free => free }
    · by_cases same : k = key
      · simp only [State.unLock,same,Function.update_self,mine,reduceCtorEq,Option.some.injEq,false_iff]
        exact fun is => apart is.symm
      · simp only [State.unLock,Function.update_of_ne same]
    · simp only [State.unLock,closed,reduceCtorEq,if_false]

private theorem same_tables {db : Metadata} (inv : Inv s) (locators : db.locators = s.db.locators)
    (partitions : db.partitions = s.db.partitions) (next : db.nextId = s.db.nextId) :
    Inv { s with db := db } ∧ ∀ other, Others other s { s with db := db } := by
  have parts (row : ℕ) : db.partitionsOf row = s.db.partitionsOf row := by
    rw [Metadata.partitionsOf,Metadata.partitionsOf,partitions]
  constructor
  · refine { inv with keys := ?_, ids := ?_, known := ?_, covered := ?_, owned := ?_, normal := ?_
                      deleted := ?_, distinct := ?_, creating := ?_, filled := ?_, begun := ?_ }
    · simpa only [locators] using inv.keys
    · simpa only [locators] using inv.ids
    · simpa only [locators,next] using inv.known
    · simpa only [locators,next] using inv.covered
    · simpa only [partitions,next] using inv.owned
    · simpa only [locators] using inv.normal
    · simpa only [locators] using inv.deleted
    · simpa only [next] using inv.distinct
    · simpa only [locators] using inv.creating
    · simpa only [parts,next] using inv.filled
    · simpa only [next] using inv.begun
  · intro other
    refine { Others.refl other s with more := ?_, partitions := ?_, locators := ?_, free := ?_ }
    · exact next.ge
    · exact fun row _ _ => parts row
    · exact fun row member => ⟨row,locators ▸ member,.refl row⟩
    · intro name _ free
      simpa only [Exists,locators] using free

private theorem found_none {name : StoreName} (inv : Inv s) (free : ¬ Exists s.db name)
    (none_creates : s.creator name = none) (locked : s.locks (s.holding id) = some id) :
    Moves id s (s.found_none id name) := by
  constructor
  · refine { inv with creating := fun row member normal other opened => ?_
                      held := fun name' other created => ?_ }
    · have apart : StoreLocator.storeName row ≠ name := fun same => free ⟨row,member,normal,same⟩
      simp only [State.found_none,Function.update_of_ne apart]
      exact inv.creating row member normal other opened
    · by_cases same : name' = name
      · simp only [State.found_none,same,Function.update_self,Option.some.injEq] at created
        rw [← created]
        exact locked
      · simp only [State.found_none,Function.update_of_ne same] at created
        exact inv.held name' other created
  · intro other apart
    have kept (name' : StoreName) :
        (s.found_none id name).creator name' = some other ↔ s.creator name' = some other := by
      by_cases same : name' = name
      · simp only [State.found_none,same,Function.update_self,none_creates,Option.some.injEq,reduceCtorEq,iff_false]
        exact fun is => apart is.symm
      · simp only [State.found_none,Function.update_of_ne same]
    exact { Others.refl other s with creator := kept, free := fun _ _ free => free }

theorem saveLocator {row : StoreLocator} (inv : Inv s) (normal : row.status = .NORMAL)
    (unused : ∀ other ∈ s.db.locators, other.key ≠ row.key)
    (creates : s.creator (StoreLocator.storeName row) = some id) :
    Moves id s { s with
      db := { s.db with
        locators := s.db.locators ++ [{ row with storeLocatorId := s.db.nextId }]
        nextId := s.db.nextId + 1 }
      opened := Function.update s.opened s.db.nextId (some id)
      origin := Function.update s.origin s.db.nextId
        (StoreLocator.storeName row,s.deletions (StoreLocator.storeName row)) } := by
  have free : ¬ Exists s.db (StoreLocator.storeName row) := by
    rintro ⟨other,member,-,same⟩
    simp only [StoreLocator.storeName,Prod.mk.injEq] at same
    exact unused other member (by rw [StoreLocator.key,StoreLocator.key,same.1,same.2])
  have old {row : StoreLocator} (member : row ∈ s.db.locators) : row.storeLocatorId ≠ s.db.nextId :=
    Nat.ne_of_lt (inv.known row member)
  have unlike (other : ℕ) (below : other < s.db.nextId) : s.origin other ≠
      (StoreLocator.storeName row,s.deletions (StoreLocator.storeName row)) := by
    intro same
    obtain ⟨there,member,rfl⟩ := inv.covered other below
    cases status : there.status with
    | NORMAL =>
      rw [inv.normal there member status,Prod.mk.injEq] at same
      exact free ⟨there,member,status,same.1⟩
    | DELETED =>
      have less := inv.deleted there member status
      rw [same] at less
      exact absurd less (Nat.lt_irrefl _)
  constructor
  · refine { inv with keys := ?_, ids := ?_, known := ?_, covered := ?_, owned := ?_, normal := ?_
                      deleted := ?_, distinct := ?_, creating := ?_, filled := ?_, begun := ?_ }
    · rw [List.map_append,List.map_singleton,List.nodup_append]
      refine ⟨inv.keys,List.nodup_singleton _,?_⟩
      rintro key there other new rfl
      obtain ⟨before,member,is⟩ := List.mem_map.mp there
      exact unused before member (is.trans (List.mem_singleton.mp new))
    · rw [List.map_append,List.map_singleton,List.nodup_append]
      refine ⟨inv.ids,List.nodup_singleton _,?_⟩
      rintro key there other new rfl
      obtain ⟨before,member,is⟩ := List.mem_map.mp there
      exact old member (is.trans (List.mem_singleton.mp new))
    · intro there member
      rcases List.mem_append.mp member with before | new
      · exact Nat.lt_succ_of_lt (inv.known there before)
      · rw [List.mem_singleton.mp new]
        exact Nat.lt_succ_self _
    · intro other below
      rcases Nat.lt_succ_iff_lt_or_eq.mp below with before | new
      · obtain ⟨there,member,is⟩ := inv.covered other before
        exact ⟨there,List.mem_append_left _ member,is⟩
      · exact ⟨_,List.mem_append_right _ (List.mem_singleton.mpr rfl),new.symm⟩
    · exact fun there member => Nat.lt_succ_of_lt (inv.owned there member)
    · intro there member status
      rcases List.mem_append.mp member with before | new
      · simp only [Function.update_of_ne (old before)]
        exact inv.normal there before status
      · rw [List.mem_singleton.mp new]
        exact Function.update_self _ _ _
    · intro there member status
      rcases List.mem_append.mp member with before | new
      · simp only [Function.update_of_ne (old before)]
        exact inv.deleted there before status
      · rw [List.mem_singleton.mp new,normal] at status
        cases status
    · intro one below two below' same
      dsimp only at same
      rcases Nat.lt_succ_iff_lt_or_eq.mp below with before | rfl
      · rw [Function.update_of_ne (Nat.ne_of_lt before)] at same
        rcases Nat.lt_succ_iff_lt_or_eq.mp below' with before' | rfl
        · rw [Function.update_of_ne (Nat.ne_of_lt before')] at same
          exact inv.distinct one before two before' same
        · rw [Function.update_self] at same
          exact absurd same (unlike one before)
      · rw [Function.update_self] at same
        rcases Nat.lt_succ_iff_lt_or_eq.mp below' with before' | rfl
        · rw [Function.update_of_ne (Nat.ne_of_lt before')] at same
          exact absurd same.symm (unlike two before')
        · rfl
    · intro there member status other opened
      dsimp only at opened ⊢
      rcases List.mem_append.mp member with before | new
      · rw [Function.update_of_ne (old before)] at opened
        exact inv.creating there before status other opened
      · rw [List.mem_singleton.mp new] at opened ⊢
        rw [Function.update_self] at opened
        rw [← opened]
        exact creates
    · intro other below closed
      dsimp only at closed
      rcases Nat.lt_succ_iff_lt_or_eq.mp below with before | rfl
      · rw [Function.update_of_ne (Nat.ne_of_lt before)] at closed
        exact inv.filled other before closed
      · rw [Function.update_self] at closed
        cases closed
    · intro other who opened
      dsimp only at opened ⊢
      by_cases new : other = s.db.nextId
      · rw [new]
        exact Nat.lt_succ_self _
      · rw [Function.update_of_ne new] at opened
        exact Nat.lt_succ_of_lt (inv.begun other who opened)
  · intro other apart
    refine { Others.refl other s with
      opened := fun there => ?_
      more := Nat.le_succ _
      origin := fun there below => Function.update_of_ne (Nat.ne_of_lt below) _ _
      closed := fun there below closed => ?_
      partitions := fun _ _ _ => rfl
      locators := fun there member => ⟨there,List.mem_append_left _ member,.refl there⟩
      free := fun name mine free => ?_ }
    · by_cases new : there = s.db.nextId
      · subst new
        simp only [Function.update_self,Option.some.injEq]
        constructor
        · exact fun is => absurd is.symm apart
        · exact fun opened => absurd (inv.begun _ _ opened) (Nat.lt_irrefl _)
      · simp only [Function.update_of_ne new]
    · simp only [Function.update_of_ne (Nat.ne_of_lt below)]
      exact closed
    · rintro ⟨there,member,status,same⟩
      rcases List.mem_append.mp member with before | new
      · exact free ⟨there,before,status,same⟩
      · rw [List.mem_singleton.mp new] at same
        rw [← same] at mine
        exact apart (Option.some.inj (mine.symm.trans creates))

theorem savePartition {row : StorePartition} (inv : Inv s) (opened : s.opened row.storeLocatorId = some id) :
    Moves id s { s with db := { s.db with partitions := s.db.partitions ++ [row] } } := by
  constructor
  · refine { inv with owned := fun there member => ?_, filled := fun other below closed empty => ?_ }
    · rcases List.mem_append.mp member with before | new
      · exact inv.owned there before
      · rw [List.mem_singleton.mp new]
        exact inv.begun _ _ opened
    · refine inv.filled other below closed ?_
      have both := List.filter_append s.db.partitions [row] (p := fun row => decide (row.storeLocatorId = other))
      exact (List.append_eq_nil_iff.mp (both.symm.trans empty)).1
  · intro other apart
    refine { Others.refl other s with partitions := fun there below still => ?_ }
    have elsewhere : row.storeLocatorId ≠ there := by
      rintro rfl
      rw [opened] at still
      rcases still with closed | mine
      · cases closed
      · exact apart (Option.some.inj mine).symm
    simp [Metadata.partitionsOf,List.filter_append,elsewhere]

private theorem counted_le (s : State) (db : Metadata) (name : StoreName) : s.deletions name ≤ s.counted db name := by
  unfold State.counted
  split
  · exact Nat.le_succ _
  · exact Nat.le_refl _

theorem update {f : StoreLocator → StoreLocator} {db : Metadata} (inv : Inv s)
    (deletes : ∀ row, f row = row ∨ (f row).status = .DELETED ∧ Alike row (f row))
    (updated : db = { s.db with locators := s.db.locators.map f })
    (keys : (db.locators.map StoreLocator.key).Nodup) :
    Moves id s { s with db := db, deletions := s.counted db } := by
  have alike (row : StoreLocator) : Alike row (f row) := by
    rcases deletes row with same | ⟨-,alike⟩
    · rw [same]
      exact .refl row
    · exact alike
  have kept {row : StoreLocator} (normal : (f row).status = .NORMAL) : f row = row := by
    rcases deletes row with same | ⟨deleted,-⟩
    · exact same
    · rw [deleted] at normal
      cases normal
  have image {row : StoreLocator} (member : row ∈ db.locators) : ∃ before ∈ s.db.locators, f before = row := by
    rw [updated] at member
    exact List.mem_map.mp member
  have there {row : StoreLocator} (member : row ∈ s.db.locators) : f row ∈ db.locators := by
    rw [updated]
    exact List.mem_map_of_mem member
  have next : db.nextId = s.db.nextId := by rw [updated]
  have parts : db.partitions = s.db.partitions := by rw [updated]
  constructor
  · refine { inv with keys := keys, ids := ?_, known := ?_, covered := ?_, owned := ?_, normal := ?_
                      deleted := ?_, distinct := ?_, creating := ?_, filled := ?_, begun := ?_ }
    · have same : db.locators.map StoreLocator.storeLocatorId = s.db.locators.map StoreLocator.storeLocatorId := by
        rw [updated,List.map_map]
        exact List.map_congr_left fun row _ => (alike row).storeLocatorId
      rw [same]
      exact inv.ids
    · intro _ member
      obtain ⟨row,before,rfl⟩ := image member
      rw [(alike row).storeLocatorId,next]
      exact inv.known row before
    · intro other below
      rw [next] at below
      obtain ⟨row,before,is⟩ := inv.covered other below
      exact ⟨f row,there before,(alike row).storeLocatorId.trans is⟩
    · simpa only [parts,next] using inv.owned
    · intro _ member normal
      obtain ⟨row,before,rfl⟩ := image member
      have still : ¬ (Exists s.db (StoreLocator.storeName (f row)) ∧
          ¬ Exists db (StoreLocator.storeName (f row))) := fun gone => gone.2 ⟨f row,member,normal,rfl⟩
      simp only [State.counted,if_neg still]
      have is := kept normal
      rw [is] at normal ⊢
      exact inv.normal row before normal
    · intro _ member deleted
      obtain ⟨row,before,rfl⟩ := image member
      rw [(alike row).storeLocatorId]
      cases status : row.status with
      | DELETED => exact (inv.deleted row before status).trans_le (counted_le s db _)
      | NORMAL =>
        rw [inv.normal row before status]
        have gone : Exists s.db (StoreLocator.storeName row) ∧ ¬ Exists db (StoreLocator.storeName row) := by
          refine ⟨⟨row,before,status,rfl⟩,?_⟩
          rintro ⟨_,member',normal⟩
          obtain ⟨other,before',rfl⟩ := image member'
          have is := kept normal.1
          rw [is] at normal
          have same : other = row := inv.normal_eq before' before normal ⟨status,rfl⟩
          rw [same] at is
          rw [is,status] at deleted
          cases deleted
        simp only [State.counted,if_pos gone]
        exact Nat.lt_succ_self _
    · simpa only [next] using inv.distinct
    · intro _ member normal
      obtain ⟨row,before,rfl⟩ := image member
      have is := kept normal
      rw [is] at normal ⊢
      exact inv.creating row before normal
    · simpa only [Metadata.partitionsOf,parts,next] using inv.filled
    · simpa only [next] using inv.begun
  · intro other apart
    refine { Others.refl other s with
      deletions := counted_le s db
      more := next.ge
      partitions := fun row _ _ => by simp only [Metadata.partitionsOf,parts]
      locators := fun row member => ⟨f row,there member,alike row⟩
      free := fun name _ free exists_after => ?_ }
    obtain ⟨_,member,normal⟩ := exists_after
    obtain ⟨row,before,rfl⟩ := image member
    rw [kept normal.1] at normal
    exact free ⟨row,before,normal⟩

end Moves

def service (id : ℕ) : Service State Op Ans Failure Env := (State.serve id).restrict (orderly id)

def locking : Op → Bool
  | .lock _ | .unLock _ => true
  | _ => false

/-- The calls that leave the tables of locators and partitions, and the history, alone. -/
def plain : Op → Bool
  | .listLocators _ _ (some _) | .listPartitions _ | .missingNodes _ | .listNodes | .listNodesIn _ | .putNodes _
  | .listOptions _ | .saveOption _ | .currentTimeMillis => true
  | _ => false

section
variable {id : ℕ} {t u : State} {env : Env}

theorem service_cases {op : Op} {answer : Except Failure (Ans op)} (served : service id t op env = some (u,answer)) :
    orderly id t op env = true ∧ State.serve id t op env = some (u,answer) := by
  unfold service Service.restrict at served
  split at served
  case isTrue allowed => exact ⟨allowed,served⟩
  case isFalse => cases served

theorem serve_cases {op : Op} {answer : Except Failure (Ans op)} (database : locking op = false)
    (served : State.serve id t op env = some (u,answer)) :
    (answer = .error .sql ∧ u = t ∧ env.outcome = .failed) ∨
      (∃ a, (t.db.answer op env).2 = .ok a ∧ answer = .ok a ∧ u = t.advance id (t.db.answer op env).1 op) ∨
      ∃ e, (t.db.answer op env).2 = .error e ∧ answer = .error e ∧
        u = { t with db := (t.db.answer op env).1 } := by
  have through : State.serve id t op env = match Metadata.serve t.db op env with
      | none => none
      | some (db,.ok a) => some (t.advance id db op,.ok a)
      | some (db,.error e) => some ({ t with db := db },.error e) := by
    cases op with
    | lock key => cases database
    | unLock key => cases database
    | _ => rfl
  rw [through] at served
  by_cases failed : Metadata.fallible op ∧ env.outcome = .failed
  · rw [show Metadata.serve t.db op env = some (t.db,.error .sql) from if_pos failed] at served
    cases served
    exact .inl ⟨rfl,rfl,failed.2⟩
  · rw [show Metadata.serve t.db op env = some (t.db.answer op env) from if_neg failed] at served
    cases given : t.db.answer op env with
    | mk db result =>
      rw [given] at served
      cases result with
      | ok a =>
        cases served
        exact .inr (.inl ⟨a,rfl,rfl,rfl⟩)
      | error e =>
        cases served
        exact .inr (.inr ⟨e,rfl,rfl,rfl⟩)

private theorem plain_ok {op : Op} (easy : plain op = true) (db : Metadata) (env : Env) :
    ∃ a, (db.answer op env).2 = .ok a := by
  cases op with
  | saveOption row =>
    simp only [Metadata.answer]
    split <;> exact ⟨_,rfl⟩
  | listLocators | listPartitions | missingNodes | listNodes | listNodesIn | putNodes | listOptions
  | currentTimeMillis => exact ⟨_,rfl⟩
  | _ => cases easy

private theorem plain_moves {op : Op} (easy : plain op = true) (inv : Inv t) {answer : Except Failure (Ans op)}
    (served : State.serve id t op env = some (u,answer)) :
    Inv u ∧ (∀ other, Others other t u) ∧
      (answer = .error .sql ∧ env.outcome = .failed ∨ answer = (t.db.answer op env).2) := by
  have same : (t.db.answer op env).1.locators = t.db.locators ∧
      (t.db.answer op env).1.partitions = t.db.partitions ∧ (t.db.answer op env).1.nextId = t.db.nextId := by
    cases op with
    | saveOption row =>
      simp only [Metadata.answer]
      split <;> exact ⟨rfl,rfl,rfl⟩
    | listLocators nameSpace name storeType => exact ⟨rfl,rfl,rfl⟩
    | listPartitions | missingNodes | listNodes | listNodesIn | putNodes | listOptions | currentTimeMillis =>
      exact ⟨rfl,rfl,rfl⟩
    | _ => cases easy
  have advanced : t.advance id (t.db.answer op env).1 op = { t with db := (t.db.answer op env).1 } := by
    cases op with
    | listLocators nameSpace name storeType =>
      cases storeType with
      | none => cases easy
      | some _ => rfl
    | listPartitions | missingNodes | listNodes | listNodesIn | putNodes | listOptions | currentTimeMillis
    | saveOption => rfl
    | _ => cases easy
  have database : locking op = false := by
    cases op with
    | lock | unLock => cases easy
    | _ => rfl
  obtain ⟨inv',others⟩ := Moves.same_tables inv same.1 same.2.1 same.2.2
  rcases serve_cases database served with ⟨rfl,rfl,failed⟩ | ⟨a,given,rfl,rfl⟩ | ⟨e,given,rfl,rfl⟩
  · exact ⟨inv,fun other => .refl other _,.inl ⟨rfl,failed⟩⟩
  · rw [advanced]
    exact ⟨inv',others,.inr given.symm⟩
  · exact ⟨inv',others,.inr given.symm⟩

end

def Stable (id : ℕ) (A : State → Prop) : Prop := ∀ s t, Others id s t → A s → A t

theorem Stable.and {id : ℕ} {A B : State → Prop} (first : Stable id A) (second : Stable id B) :
    Stable id fun s => A s ∧ B s := fun s t moved both => ⟨first s t moved both.1,second s t moved both.2⟩

section
variable (id : ℕ) (name : StoreName) (key : String)

/-- Inside its locked section; what it has created so far is a locator of `rows`. -/
structure Inside (rows : Option ℕ) (s : State) : Prop where
  locked : s.locks key = some id
  holding : s.holding id = key
  since : s.since id name ≤ s.deletions name
  opened : ∀ row, s.opened row = some id ↔ rows = some row

/-- Inside, and nothing is created by it. -/
structure Entered (s : State) : Prop where
  inside : Inside id name key none s
  idle : ∀ other, s.creator other ≠ some id

/-- A row that the request has seen, or made, in its time. -/
structure Seen (row : StoreLocator) (s : State) : Prop where
  below : row.storeLocatorId < s.db.nextId
  mine : s.opened row.storeLocatorId = none ∨ s.opened row.storeLocatorId = some id
  origin : (s.origin row.storeLocatorId).1 = name
  since : s.since id name ≤ (s.origin row.storeLocatorId).2
  there : ∃ other ∈ s.db.locators, Alike row other

/-- It creates the store: there is none. -/
structure Creates (s : State) : Prop where
  inside : Inside id name key none s
  creator : s.creator name = some id
  free : ¬ Exists s.db name

/-- The locator is saved, and these are its partitions so far. -/
structure Saved (row : StoreLocator) (parts : List StorePartition) (s : State) : Prop where
  inside : Inside id name key (some row.storeLocatorId) s
  seen : Seen id name row s
  partitions : s.db.partitionsOf row.storeLocatorId = parts

variable {id : ℕ} {name : StoreName} {key : String}

theorem Inside.stable (rows : Option ℕ) : Stable id (Inside id name key rows) := fun _ _ moved at_ =>
  ⟨(moved.locks key).mpr at_.locked,moved.holding.trans at_.holding,
    by rw [moved.since]; exact at_.since.trans (moved.deletions name),
    fun row => (moved.opened row).trans (at_.opened row)⟩

theorem Entered.stable : Stable id (Entered id name key) := fun s t moved entered =>
  ⟨Inside.stable none s t moved entered.inside,fun other mine => entered.idle other ((moved.creator other).mp mine)⟩

theorem Seen.stable (row : StoreLocator) : Stable id (Seen id name row) := fun s t moved seen => by
  refine ⟨seen.below.trans_le moved.more,?_,?_,?_,?_⟩
  · exact seen.mine.imp (moved.closed _ seen.below) (moved.opened _).mpr
  · rw [moved.origin _ seen.below]
    exact seen.origin
  · rw [moved.origin _ seen.below,moved.since]
    exact seen.since
  · obtain ⟨other,there,alike⟩ := seen.there
    obtain ⟨third,there',alike'⟩ := moved.locators other there
    exact ⟨third,there',alike.trans alike'⟩

theorem Creates.stable : Stable id (Creates id name key) := fun s t moved creates =>
  ⟨Inside.stable none s t moved creates.inside,(moved.creator name).mpr creates.creator,
    moved.free name creates.creator creates.free⟩

theorem Saved.stable (row : StoreLocator) (parts : List StorePartition) :
    Stable id (Saved id name key row parts) := fun s t moved saved =>
  ⟨Inside.stable _ s t moved saved.inside,Seen.stable row s t moved saved.seen,
    (moved.partitions _ saved.seen.below saved.seen.mine).trans saved.partitions⟩

end

/-- The same details, but for the id that the database gives. -/
structure Detail (row : StoreLocator) (store : ErStore) : Prop where
  storeType : store.storeLocator.storeType = row.storeType
  path : store.storeLocator.path = row.path
  totalPartitions : store.storeLocator.totalPartitions = row.totalPartitions
  keySerdesType : store.storeLocator.keySerdesType = row.keySerdesType
  valueSerdesType : store.storeLocator.valueSerdesType = row.valueSerdesType
  partitionerType : store.storeLocator.partitionerType = row.partitionerType

def placed (store : ErStore) : List (Int × Int) := store.partitions.map fun p => (p.id,p.processor.serverNodeId)

/-- A store that is given out shows a row and its partitions. -/
structure Shows (id : ℕ) (name : StoreName) (store : ErStore) (row : StoreLocator) (s : State) : Prop where
  seen : Seen id name row s
  named : (store.storeLocator.nameSpace,store.storeLocator.name) = name
  detail : Detail row store
  partitions : placed store = (s.db.partitionsOf row.storeLocatorId).map fun p => (p.partitionId,p.nodeId)

theorem Shows.stable {id : ℕ} {name : StoreName} (store : ErStore) (row : StoreLocator) :
    Stable id (Shows id name store row) := fun s t moved shows_ => by
  refine ⟨Seen.stable row s t moved shows_.seen,shows_.named,shows_.detail,?_⟩
  rw [moved.partitions _ shows_.seen.below shows_.seen.mine]
  exact shows_.partitions

def Harmed : Failure → Prop
  | .duplicate | .noPartition _ _ => True
  | _ => False

section
variable {id : ℕ} {name : StoreName} {key : String} {s : State}

private theorem sat_plain {op : Op} (easy : plain op = true) {A : State → Prop} (stable : Stable id A) (holds : A s) :
    (call op).Sat (contract id) (service id) (fun answer u => A u ∧
      ((answer = .error .sql ∧ ∃ t env, orderly id t op env = true ∧ env.outcome = .failed) ∨
      ∃ t env a, Inv t ∧ A t ∧ Others id t u ∧ orderly id t op env = true ∧
        (t.db.answer op env).2 = .ok a ∧ answer = .ok a)) s := by
  refine Sat.perform stable ?_ holds fun t env u answer inv at_ served => ?_
  · rintro answer t u moved ⟨at_,given⟩
    refine ⟨stable t u moved at_,given.imp_right ?_⟩
    rintro ⟨v,env,a,inv,was,since,rest⟩
    exact ⟨v,env,a,inv,was,since.trans moved,rest⟩
  · obtain ⟨allowed,served⟩ := service_cases served
    obtain ⟨inv',others,given⟩ := plain_moves easy inv served
    refine ⟨inv',fun other _ => others other,stable t u (others id) at_,?_⟩
    refine given.imp (fun failed => ⟨failed.1,t,env,allowed,failed.2⟩) fun is => ?_
    obtain ⟨a,ok⟩ := plain_ok easy t.db env
    exact ⟨t,env,a,inv,at_,others id,allowed,ok,is.trans ok⟩

def LookedUp (id : ℕ) (name : StoreName) (key : String) (answer : Except Failure (List StoreLocator)) (s : State) :
    Prop :=
  match answer with
  | .ok [] => Creates id name key s
  | .ok (row :: _) => Entered id name key s ∧ Seen id name row s ∧ StoreLocator.storeName row = name
  | .error e => Entered id name key s ∧ ¬ Harmed e

theorem LookedUp.stable (answer : Except Failure (List StoreLocator)) : Stable id (LookedUp id name key answer) := by
  intro s t moved looked
  match answer with
  | .ok [] => exact Creates.stable s t moved looked
  | .ok (row :: _) =>
    exact ⟨Entered.stable s t moved looked.1,Seen.stable row s t moved looked.2.1,looked.2.2⟩
  | .error e => exact ⟨Entered.stable s t moved looked.1,looked.2⟩

private theorem Entered.none_creates {t : State} {env : Env} (inv : Inv t) (entered : Entered id name key t)
    (allowed : orderly id t (.listLocators name.1 name.2 none) env = true) : t.creator name = none := by
  cases created : t.creator name with
  | none => rfl
  | some other =>
    have same : t.holding other = t.holding id := by
      simp only [orderly,created,Option.all_some] at allowed
      exact of_decide_eq_true allowed
    have locked := inv.held name other created
    rw [same,entered.inside.holding,entered.inside.locked] at locked
    rw [← Option.some.inj locked] at created
    exact absurd created (entered.idle name)

private theorem lookUp_sat (entered : Entered id name key s) :
    (call (.listLocators name.1 name.2 none)).Sat (contract id) (service id) (LookedUp id name key) s := by
  refine Sat.perform (@Entered.stable id name key) (fun answer s t moved => LookedUp.stable answer s t moved) entered
    fun t env u answer inv entered served => ?_
  obtain ⟨allowed,served⟩ := service_cases served
  have none_creates := entered.none_creates inv allowed
  have rows_of {row : StoreLocator} : row ∈ t.db.locators.filter (fun row => row.nameSpace = name.1 ∧
      row.name = name.2 ∧ row.status = .NORMAL ∧ (none : Option String).all (· = row.storeType)) ↔
      row ∈ t.db.locators ∧ IsNormal name row := by
    simp only [List.mem_filter,IsNormal,StoreLocator.storeName,Option.all_none,decide_eq_true_eq,Prod.ext_iff]
    tauto
  rcases serve_cases rfl served with ⟨rfl,rfl,-⟩ | ⟨rows,given,rfl,moves⟩ | ⟨e,given,-,-⟩
  · exact ⟨inv,fun other _ => .refl other _,entered,not_false⟩
  · have given := Except.ok.inj given
    cases rows with
    | nil =>
      have free : ¬ Exists t.db name := by
        rintro ⟨row,member,normal⟩
        have found := rows_of.mpr ⟨member,normal⟩
        rw [given] at found
        cases found
      have locked : t.locks (t.holding id) = some id := by
        rw [entered.inside.holding]
        exact entered.inside.locked
      have moved := Moves.found_none inv free none_creates locked
      have is : u = t.found_none id name := moves.trans (if_neg free)
      subst is
      have inside : Inside id name key none (t.found_none id name) :=
        ⟨entered.inside.locked,entered.inside.holding,entered.inside.since,entered.inside.opened⟩
      exact ⟨moved.1,moved.2,inside,Function.update_self _ _ _,free⟩
    | cons row rest =>
      obtain ⟨member,normal⟩ := rows_of.mp (by rw [given]; exact List.mem_cons_self : row ∈ _)
      have is : u = t := moves.trans (if_pos ⟨row,member,normal⟩)
      subst is
      have made := inv.normal row member normal.1
      rw [normal.2] at made
      refine ⟨inv,fun other _ => .refl other u,entered,⟨inv.known row member,.inl ?_,?_,?_,row,member,.refl row⟩,normal.2⟩
      · cases opened : u.opened row.storeLocatorId with
        | none => rfl
        | some other =>
          have creates := inv.creating row member normal.1 other opened
          rw [normal.2,none_creates] at creates
          cases creates
      · rw [made]
      · rw [made]
        exact entered.inside.since
  · cases given

private theorem plain_bind {α : Type} {op : Op} (easy : plain op = true) {A : State → Prop} (stable : Stable id A)
    {f : Ans op → Crud α} {Q : Except Failure α → State → Prop} (inv : Inv s) (holds : A s)
    (fails : ∀ u, Inv u → A u → (∃ t env, orderly id t op env = true ∧ env.outcome = .failed) → (raise .sql : Crud α).Sat (contract id) (service id) Q u)
    (follows : ∀ t env a u, Inv t → A t → orderly id t op env = true → (t.db.answer op env).2 = .ok a →
      Others id t u → Inv u → A u → (f a).Sat (contract id) (service id) Q u) :
    (call op >>= f).Sat (contract id) (service id) Q s := by
  refine Sat.bind (sat_plain easy stable holds) inv ?_ ?_
  · rintro a u inv' ⟨at_,failed | ⟨t,env,b,inv,was,moved,allowed,ok,is⟩⟩
    · cases failed.1
    · cases is
      exact follows t env a u inv was allowed ok moved inv' at_
  · rintro e u inv' ⟨at_,failed | ⟨t,env,b,-,-,-,-,-,is⟩⟩
    · cases failed.1
      exact fails u inv' at_ failed.2
    · cases is

def Got (id : ℕ) (name : StoreName) (key : String) (result : Except Failure (Option ErStore)) (s : State) : Prop :=
  match result with
  | .ok none => Creates id name key s
  | .ok (some store) => Entered id name key s ∧ ∃ row, Shows id name store row s
  | .error e => Entered id name key s ∧ ¬ Harmed e

theorem Got.stable (result : Except Failure (Option ErStore)) : Stable id (Got id name key result) := by
  intro s t moved got
  match result with
  | .ok none => exact Creates.stable s t moved got
  | .ok (some store) =>
    obtain ⟨row,shows_⟩ := got.2
    exact ⟨Entered.stable s t moved got.1,row,Shows.stable store row s t moved shows_⟩
  | .error e => exact ⟨Entered.stable s t moved got.1,got.2⟩

/-- Inside, with a row of the name and its partitions. -/
structure Read (id : ℕ) (name : StoreName) (key : String) (row : StoreLocator) (parts : List StorePartition)
    (s : State) : Prop where
  entered : Entered id name key s
  seen : Seen id name row s
  partitions : s.db.partitionsOf row.storeLocatorId = parts

theorem Read.stable (row : StoreLocator) (parts : List StorePartition) : Stable id (Read id name key row parts) :=
  fun s t moved read => ⟨Entered.stable s t moved read.entered,Seen.stable row s t moved read.seen,
    (moved.partitions _ read.seen.below read.seen.mine).trans read.partitions⟩

private theorem lookUpNodes_sat {row : StoreLocator} {parts : List StorePartition} (missing : List Int) (inv : Inv s)
    (read : Read id name key row parts s) :
    (lookUpNodes missing).Sat (contract id) (service id)
      (fun result u => Read id name key row parts u ∧ ∀ e, result = .error e → ¬ Harmed e) s := by
  have kept (result : Except Failure Unit) : Stable id fun u =>
      Read id name key row parts u ∧ ∀ e, result = .error e → ¬ Harmed e := fun s t moved both =>
    ⟨Read.stable row parts s t moved both.1,both.2⟩
  have fails {e : Failure} (harmless : ¬ Harmed e) {u : State} (read : Read id name key row parts u) :
      (raise e : Crud Unit).Sat (contract id) (service id)
        (fun result u => Read id name key row parts u ∧ ∀ e, result = .error e → ¬ Harmed e) u := by
    refine Sat.ended (kept _) ⟨read,fun _ is => ?_⟩
    cases is
    exact harmless
  unfold lookUpNodes
  split
  · exact Sat.ended (kept _) ⟨read,nofun⟩
  · refine plain_bind rfl (Read.stable row parts) inv read (fun u _ read _ => fails (e := .sql) not_false read)
      fun _ _ found u _ _ _ _ _ inv' read' => ?_
    split
    · exact fails (e := .noValidNode) not_false read'
    · refine (sat_plain rfl (Read.stable row parts) read').mono fun result v _ done => ⟨done.1,?_⟩
      rintro e rfl
      rcases done.2 with failed | ⟨_,_,_,_,_,_,_,_,is⟩
      · cases failed.1
        exact not_false
      · cases is

private theorem doGetStore_sat {input : ErStore} (named : (input.storeLocator.nameSpace,input.storeLocator.name) = name)
    (inv : Inv s) (entered : Entered id name key s) :
    (doGetStore input.withoutType).Sat (contract id) (service id) (Got id name key) s := by
  subst named
  have fails {u : State} (entered : Entered id _ key u) : (raise .sql : Crud (Option ErStore)).Sat (contract id)
      (service id) (Got id (input.storeLocator.nameSpace,input.storeLocator.name) key) u :=
    Sat.ended (Got.stable _) ⟨entered,not_false⟩
  simp only [doGetStore,ErStore.withoutType]
  refine Sat.bind (lookUp_sat entered) inv (fun rows t inv looked => ?_) fun e t inv looked => ?_
  · cases rows with
    | nil => exact Sat.ended (Got.stable _) looked
    | cons row rest =>
      obtain ⟨entered,seen,rowName⟩ := looked
      refine plain_bind (A := fun s => Entered id _ key s ∧ Seen id _ row s) rfl
        (Entered.stable.and (Seen.stable row)) inv ⟨entered,seen⟩ (fun u _ at_ _ => fails at_.1)
        fun v env parts u inv_v at_v _ ok moved inv at_ => ?_
      have parts_are : v.db.partitionsOf row.storeLocatorId = parts := Except.ok.inj ok
      have read : Read id _ key row parts u :=
        ⟨at_.1,at_.2,(moved.partitions _ at_v.2.below at_v.2.mine).trans parts_are⟩
      have closed : v.opened row.storeLocatorId = none := by
        refine at_v.2.mine.resolve_right fun mine => ?_
        cases (at_v.1.inside.opened _).mp mine
      have some_part : parts ≠ [] := by
        rw [← parts_are]
        exact inv_v.filled _ at_v.2.below closed
      rw [if_neg some_part]
      refine plain_bind rfl (Read.stable row parts) inv read (fun u _ read _ => fails read.entered)
        fun _ _ missing w _ _ _ _ _ inv read => ?_
      refine Sat.bind (lookUpNodes_sat missing inv read) inv ?_ ?_
      · rintro ⟨⟩ x inv ⟨read,-⟩
        refine plain_bind rfl (Read.stable row parts) inv read (fun u _ read _ => fails read.entered)
          fun _ _ opts y _ _ _ _ _ inv read => ?_
        refine Sat.ended (Got.stable _) ⟨read.entered,row,read.seen,rowName,⟨rfl,rfl,rfl,rfl,rfl,rfl⟩,?_⟩
        rw [read.partitions]
        simp only [placed,StoreLocator.toErStore,List.map_map,Function.comp_def]
      · rintro e x inv ⟨read,harmless⟩
        exact Sat.ended (Got.stable _) ⟨read.entered,harmless e rfl⟩
  · exact Sat.ended (Got.stable _) looked

def newRow (input : ErStore) (rowId : ℕ) : StoreLocator :=
  { input.storeLocator.newStoreLocator with storeLocatorId := rowId }

def Located (id : ℕ) (name : StoreName) (key : String) (input : ErStore) (answer : Except Failure (Option ℕ))
    (s : State) : Prop :=
  match answer with
  | .ok (some rowId) => Saved id name key (newRow input rowId) [] s
  | .ok none => Inside id name key none s
  | .error e => Inside id name key none s ∧ ¬ Harmed e

theorem Located.stable (input : ErStore) (answer : Except Failure (Option ℕ)) :
    Stable id (Located id name key input answer) := by
  intro s t moved located
  match answer with
  | .ok (some rowId) => exact Saved.stable _ [] s t moved located
  | .ok none => exact Inside.stable none s t moved located
  | .error e => exact ⟨Inside.stable none s t moved located.1,located.2⟩

private theorem saveLocator_sat {input : ErStore} (named : (input.storeLocator.nameSpace,input.storeLocator.name) = name)
    (creates : Creates id name key s) :
    (call (.saveLocator input.storeLocator.newStoreLocator)).Sat (contract id) (service id)
      (Located id name key input) s := by
  refine Sat.perform (@Creates.stable id name key) (fun answer s t moved => Located.stable input answer s t moved)
    creates fun t env u answer inv creates served => ?_
  obtain ⟨allowed,served⟩ := service_cases served
  have unused : ∀ other ∈ t.db.locators, other.key ≠ input.storeLocator.newStoreLocator.key := by
    intro other member same
    have meets := List.all_eq_true.mp allowed other member
    rcases of_decide_eq_true meets with different | normal
    · exact different same
    · exact creates.free ⟨other,member,by rw [← named]; exact normal⟩
  have none_taken : ¬ (t.db.locators.any fun other =>
      other.key = input.storeLocator.newStoreLocator.key) = true := by
    intro taken
    obtain ⟨other,member,same⟩ := List.any_eq_true.mp taken
    exact unused other member (of_decide_eq_true same)
  rcases serve_cases rfl served with ⟨rfl,rfl,-⟩ | ⟨saved,given,rfl,moves⟩ | ⟨e,given,-,-⟩
  · exact ⟨inv,fun other _ => .refl other _,creates.inside,not_false⟩
  · simp only [Metadata.answer,Metadata.saveLocator] at given moves
    by_cases unsaved : env.outcome = .unsaved
    · rw [if_pos unsaved] at given moves
      cases given
      have is : u = t := moves.trans (if_pos rfl)
      subst is
      exact ⟨inv,fun other _ => .refl other u,creates.inside⟩
    · rw [if_neg unsaved,if_neg none_taken] at given moves
      cases given
      have is : u = _ := moves.trans (if_neg (Nat.succ_ne_self t.db.nextId))
      have moved := Moves.saveLocator inv rfl unused (by rw [← named] at creates; exact creates.creator)
      rw [← is] at moved
      refine ⟨moved.1,moved.2,?_⟩
      have same : StoreLocator.storeName input.storeLocator.newStoreLocator = name := named
      subst is
      refine ⟨⟨creates.inside.locked,creates.inside.holding,creates.inside.since,fun row => ?_⟩,
        ⟨Nat.lt_succ_self _,.inr (Function.update_self _ _ _),?_,?_,newRow input t.db.nextId,?_,.refl _⟩,?_⟩
      · by_cases new : row = t.db.nextId
        · simp only [new,newRow,Function.update_self]
        · have old := (creates.inside.opened row).not.mpr nofun
          simp only [newRow,Function.update_of_ne new,Option.some.injEq]
          exact ⟨fun mine => absurd mine old,fun is => absurd is.symm new⟩
      · simp only [newRow,Function.update_self,same]
      · simp only [newRow,Function.update_self,same]
        exact creates.inside.since
      · exact List.mem_append_right _ (List.mem_singleton.mpr rfl)
      · refine List.filter_eq_nil_iff.mpr fun row member => ?_
        exact fun is => Nat.ne_of_lt (inv.owned row member) (of_decide_eq_true is)
  · simp only [Metadata.answer,Metadata.saveLocator] at given
    by_cases unsaved : env.outcome = .unsaved
    · rw [if_pos unsaved] at given
      cases given
    · rw [if_neg unsaved,if_neg none_taken] at given
      cases given

private theorem savePartition_sat {row : StoreLocator} {parts : List StorePartition} {part : StorePartition}
    (own : part.storeLocatorId = row.storeLocatorId) (saved : Saved id name key row parts s) :
    (call (.savePartition part)).Sat (contract id) (service id)
      (fun answer u => answer = .ok true ∧ Saved id name key row (parts ++ [part]) u) s := by
  refine Sat.perform (Saved.stable row parts) (fun answer s t moved both =>
    ⟨both.1,Saved.stable row _ s t moved both.2⟩) saved fun t env u answer inv saved served => ?_
  obtain ⟨allowed,served⟩ := service_cases served
  have done : env.outcome = .done := of_decide_eq_true allowed
  have answers : t.db.answer (.savePartition part) env =
      ({ t.db with partitions := t.db.partitions ++ [part] },.ok true) := by
    rw [Metadata.answer,if_neg (by rw [done]; decide)]
  have opened : t.opened part.storeLocatorId = some id := by
    rw [own]
    exact (saved.inside.opened _).mpr rfl
  rcases serve_cases rfl served with ⟨-,-,failed⟩ | ⟨a,given,rfl,moves⟩ | ⟨e,given,-,-⟩
  · rw [done] at failed
    cases failed
  · rw [answers] at given moves
    cases given
    have moved := Moves.savePartition inv opened
    have is : u = { t with db := { t.db with partitions := t.db.partitions ++ [part] } } := moves
    rw [← is] at moved
    refine ⟨moved.1,moved.2,rfl,?_⟩
    subst is
    refine ⟨⟨saved.inside.locked,saved.inside.holding,saved.inside.since,saved.inside.opened⟩,
      ⟨saved.seen.below,saved.seen.mine,saved.seen.origin,saved.seen.since,saved.seen.there⟩,?_⟩
    have both := List.filter_append t.db.partitions [part]
      (p := fun other => decide (other.storeLocatorId = row.storeLocatorId))
    have last : [part].filter (fun other => decide (other.storeLocatorId = row.storeLocatorId)) = [part] :=
      List.filter_eq_self.mpr (by simp [own])
    rw [last] at both
    exact both.trans (congrArg (· ++ [part]) saved.partitions)
  · rw [answers] at given
    cases given

private theorem savePartitions_sat {input : ErStore} {rowId : ℕ} (serverNodes : List Int) (indices : List ℕ)
    {parts : List StorePartition} (inv : Inv s) (saved : Saved id name key (newRow input rowId) parts s) :
    (savePartitions rowId input serverNodes indices).Sat (contract id) (service id)
      (fun result u => result = .ok (indices.map (newPartition input serverNodes)) ∧
        Saved id name key (newRow input rowId) (parts ++ indices.map (nodeRecord rowId input serverNodes)) u) s := by
  have kept (result : Except Failure (List ErPartition)) (is : Except Failure (List ErPartition))
      (parts : List StorePartition) : Stable id fun u =>
        result = is ∧ Saved id name key (newRow input rowId) parts u := fun s t moved both =>
    ⟨both.1,Saved.stable _ parts s t moved both.2⟩
  induction indices generalizing s parts with
  | nil =>
    refine Sat.ended (kept _ _ _) ⟨rfl,?_⟩
    rw [List.map_nil,List.append_nil]
    exact saved
  | cons i rest ih =>
    refine Sat.bind (Q := fun result u => result = .ok (newPartition input serverNodes i) ∧
      Saved id name key (newRow input rowId) (parts ++ [nodeRecord rowId input serverNodes i]) u) ?_ inv ?_ ?_
    · have same : (nodeRecord rowId input serverNodes i).storeLocatorId = (newRow input rowId).storeLocatorId := rfl
      refine Sat.bind (savePartition_sat same saved) inv ?_ ?_
      · rintro a t inv ⟨⟨⟩,saved⟩
        exact Sat.ended (fun s t moved both => ⟨both.1,Saved.stable _ _ s t moved both.2⟩) ⟨rfl,saved⟩
      · rintro e t inv ⟨⟨⟩,-⟩
    · rintro a t inv ⟨⟨⟩,saved⟩
      refine Sat.bind (ih inv saved) inv ?_ ?_
      · rintro a t inv ⟨⟨⟩,saved⟩
        refine Sat.ended (kept _ _ _) ⟨rfl,?_⟩
        rw [List.append_assoc,List.singleton_append] at saved
        exact saved
      · rintro e t inv ⟨⟨⟩,-⟩
    · rintro e t inv ⟨⟨⟩,-⟩

private theorem saveOptions_sat {row : StoreLocator} {parts : List StorePartition} (rowId : ℕ) (options : Options)
    (inv : Inv s) (saved : Saved id name key row parts s) :
    (saveOptions rowId options).Sat (contract id) (service id)
      (fun result u => result = .ok () ∧ Saved id name key row parts u) s := by
  induction options generalizing s with
  | nil => exact Sat.ended (fun s t moved both => ⟨both.1,Saved.stable _ _ s t moved both.2⟩) ⟨rfl,saved⟩
  | cons option rest ih =>
    refine plain_bind rfl (Saved.stable row parts) inv saved ?_ fun _ _ _ u _ _ _ _ _ inv saved => ih inv saved
    rintro u inv saved ⟨t,env,allowed,failed⟩
    exact absurd failed (of_decide_eq_true allowed)

/-- Still locked, with what the request has to give; a locator of its own has partitions. -/
structure Leaving (id : ℕ) (name : StoreName) (key : String) (result : Except Failure ErStore) (s : State) : Prop where
  locked : s.locks key = some id
  full : ∀ row, s.opened row = some id → row < s.db.nextId ∧ s.db.partitionsOf row ≠ []
  shows_ : ∀ store, result = .ok store → ∃ row, Shows id name store row s
  harmless : ∀ e, result = .error e → ¬ Harmed e

theorem Leaving.stable (result : Except Failure ErStore) : Stable id (Leaving id name key result) :=
  fun s t moved leaving => by
    refine ⟨(moved.locks key).mpr leaving.locked,fun row mine => ?_,fun store is => ?_,leaving.harmless⟩
    · have before := (moved.opened row).mp mine
      obtain ⟨below,full⟩ := leaving.full row before
      refine ⟨below.trans_le moved.more,?_⟩
      rw [moved.partitions row below (.inr before)]
      exact full
    · obtain ⟨row,shows_⟩ := leaving.shows_ store is
      exact ⟨row,Shows.stable store row s t moved shows_⟩

theorem Inside.leaving {e : Failure} (inside : Inside id name key none s) (harmless : ¬ Harmed e) :
    Leaving id name key (.error e) s :=
  ⟨inside.locked,fun row mine => absurd ((inside.opened row).mp mine) nofun,nofun,by rintro _ ⟨⟩; exact harmless⟩

private theorem newTotalPartitions_pos {totalPartitions : Int} {nodesCount : ℕ} (some_node : nodesCount ≠ 0)
    (fits : nodesCount < 536870912) : 0 < newTotalPartitions totalPartitions nodesCount := by
  unfold newTotalPartitions wrapInt
  split <;> omega

private theorem createPartitions_sat {input : ErStore} {rowId : ℕ}
    (named : (input.storeLocator.nameSpace,input.storeLocator.name) = name) (inv : Inv s)
    (saved : Saved id name key (newRow input rowId) [] s) :
    (createPartitions rowId input).Sat (contract id) (service id) (Leaving id name key) s := by
  refine plain_bind rfl (Saved.stable _ []) inv saved ?_ ?_
  · rintro u inv saved ⟨t,env,allowed,failed⟩
    exact absurd failed (of_decide_eq_true allowed).1
  rintro t env nodes u - - allowed ok - inv saved
  obtain ⟨-,some_node,fits⟩ := of_decide_eq_true allowed
  rw [Except.ok.inj ok] at some_node fits
  have sorted : nodes.insertionSort (· ≤ ·) ≠ [] := by
    rwa [ne_eq,← List.length_eq_zero_iff,List.length_insertionSort,List.length_eq_zero_iff]
  have count : (newTotalPartitions input.storeLocator.totalPartitions
      (nodes.insertionSort (· ≤ ·)).length).toNat ≠ 0 := by
    rw [List.length_insertionSort]
    have positive := @newTotalPartitions_pos input.storeLocator.totalPartitions _
      (List.length_eq_zero_iff.not.mpr some_node) fits
    omega
  simp only [if_neg sorted]
  refine Sat.bind (savePartitions_sat _ _ inv saved) inv ?_ ?_
  · rintro parts v inv ⟨⟨⟩,saved⟩
    refine Sat.bind (saveOptions_sat rowId input.options inv saved) inv ?_ ?_
    · rintro ⟨⟩ w inv ⟨-,saved⟩
      refine Sat.ended (Leaving.stable _) ⟨saved.inside.locked,fun row mine => ?_,?_,nofun⟩
      · have is : rowId = row := Option.some.inj ((saved.inside.opened row).mp mine)
        subst is
        have filled : w.db.partitionsOf rowId = _ := saved.partitions
        refine ⟨saved.seen.below,?_⟩
        rw [filled,List.nil_append]
        refine fun none_left => count ?_
        rw [List.map_eq_nil_iff] at none_left
        rw [← List.length_range (n := Int.toNat _),none_left]
        rfl
      · rintro store ⟨⟩
        refine ⟨newRow input rowId,saved.seen,named,⟨rfl,rfl,rfl,rfl,rfl,rfl⟩,?_⟩
        rw [saved.partitions,List.nil_append]
        simp only [placed,newPartition,nodeRecord,List.map_map,Function.comp_def]
    · rintro e w inv ⟨⟨⟩,-⟩
  · rintro e v inv ⟨⟨⟩,-⟩

private theorem doCreateStore_sat {input : ErStore} (named : (input.storeLocator.nameSpace,input.storeLocator.name) = name)
    (inv : Inv s) (creates : Creates id name key s) :
    (doCreateStore input).Sat (contract id) (service id) (Leaving id name key) s := by
  refine Sat.bind (saveLocator_sat named creates) inv (fun saved t inv located => ?_) fun e t inv located => ?_
  · cases saved with
    | none => exact Sat.ended (Leaving.stable _) (Inside.leaving located not_false)
    | some rowId => exact createPartitions_sat named inv located
  · exact Sat.ended (Leaving.stable _) (located.1.leaving located.2)

/-- What a request that has left was given: a row of its name that was made, and found or
made by it, between the counts of deletions when it came and when it left. -/
structure Given (id : ℕ) (name : StoreName) (result : Except Failure ErStore) (s : State) : Prop where
  shows_ : ∀ store, result = .ok store → ∃ row, Shows id name store row s ∧
    (s.origin row.storeLocatorId).2 ≤ s.upto id name
  harmless : ∀ e, result = .error e → ¬ Harmed e

theorem Given.stable (result : Except Failure ErStore) : Stable id (Given id name result) :=
  fun s t moved given => by
    refine ⟨fun store is => ?_,given.harmless⟩
    obtain ⟨row,shows_,before⟩ := given.shows_ store is
    refine ⟨row,Shows.stable store row s t moved shows_,?_⟩
    rw [moved.origin _ shows_.seen.below,moved.upto]
    exact before

private theorem Inv.origin_le (inv : Inv s) {row : ℕ} (below : row < s.db.nextId) :
    (s.origin row).2 ≤ s.deletions (s.origin row).1 := by
  obtain ⟨there,member,rfl⟩ := inv.covered row below
  cases status : there.status with
  | NORMAL =>
    rw [inv.normal there member status]
  | DELETED => exact Nat.le_of_lt (inv.deleted there member status)

private theorem unLock_sat {result : Except Failure ErStore} (leaving : Leaving id name key result s) :
    (call (.unLock key)).Sat (contract id) (service id)
      (fun answer u => answer = .ok () ∧ Given id name result u) s := by
  refine Sat.perform (Leaving.stable result) (fun answer s t moved both => ⟨both.1,Given.stable _ s t moved both.2⟩)
    leaving fun t env u answer inv leaving served => ?_
  obtain ⟨-,served⟩ := service_cases served
  cases served
  have moved := Moves.unLock inv leaving.locked fun row below mine => (leaving.full row mine).2
  refine ⟨moved.1,moved.2,rfl,fun store is => ?_,leaving.harmless⟩
  obtain ⟨row,shows_⟩ := leaving.shows_ store is
  have closed : (t.unLock id key).opened row.storeLocatorId = none := by
    simp only [State.unLock]
    rcases shows_.seen.mine with none_there | mine
    · rw [none_there]
      exact if_neg nofun
    · exact if_pos mine
  refine ⟨row,⟨⟨shows_.seen.below,.inl closed,shows_.seen.origin,shows_.seen.since,shows_.seen.there⟩,
    shows_.named,shows_.detail,shows_.partitions⟩,?_⟩
  have before := inv.origin_le shows_.seen.below
  rw [shows_.seen.origin] at before
  simp only [State.unLock,Function.update_self]
  exact before

private theorem lock_sat (name : StoreName) (fresh : Fresh id s) :
    (call (.lock key)).Sat (contract id) (service id)
      (fun answer u => answer = .ok () ∧ Entered id name key u) s := by
  refine Sat.perform (A := Fresh id) (fun s t => Fresh.others) (fun answer s t moved both =>
    ⟨both.1,Entered.stable s t moved both.2⟩) fresh fun t env u answer inv fresh served => ?_
  obtain ⟨-,served⟩ := service_cases served
  change (if t.locks key = none then some (t.lock id key,Except.ok ()) else none) = _ at served
  split at served
  case isFalse => cases served
  case isTrue unlocked =>
    cases served
    have moved := Moves.lock inv unlocked fresh.creator
    refine ⟨moved.1,moved.2,rfl,⟨Function.update_self _ _ _,Function.update_self _ _ _,?_,fun row => ?_⟩,
      fresh.creator⟩
    · simp only [State.lock,Function.update_self]
      exact Nat.le_refl _
    · exact ⟨fun mine => absurd mine (fresh.opened row),nofun⟩

private theorem doGetOrCreateStore_sat (input : ErStore) (inv : Inv s) (fresh : Fresh id s) :
    (doGetOrCreateStore input).Sat (contract id) (service id)
      (Given id (input.storeLocator.nameSpace,input.storeLocator.name)) s := by
  refine Sat.andThen (Q := Leaving id (input.storeLocator.nameSpace,input.storeLocator.name)
    input.storeLocator.buildKey) ?_ inv fun result t inv leaving => ?_
  · refine Sat.bind (lock_sat (input.storeLocator.nameSpace,input.storeLocator.name) fresh) inv ?_ ?_
    · rintro ⟨⟩ t inv ⟨-,entered⟩
      refine Sat.bind (doGetStore_sat rfl inv entered) inv (fun existing u inv got => ?_) fun e u inv got => ?_
      · cases existing with
        | some store =>
          refine Sat.ended (Leaving.stable _) ⟨got.1.inside.locked,fun row mine => ?_,?_,nofun⟩
          · exact absurd ((got.1.inside.opened row).mp mine) nofun
          · rintro _ ⟨⟩
            exact got.2
        | none => exact doCreateStore_sat rfl inv got
      · exact Sat.ended (Leaving.stable _) (got.1.inside.leaving got.2)
    · rintro e t inv ⟨⟨⟩,-⟩
  · refine Sat.bind (unLock_sat leaving) inv ?_ ?_
    · rintro ⟨⟩ u inv ⟨-,given⟩
      exact Sat.ended (Given.stable result) given
    · rintro e u inv ⟨⟨⟩,-⟩

def Answered (id : ℕ) (request : Request) (result : Except Failure (Option ErStore)) (s : State) : Prop :=
  match request with
  | .getOrCreate input => (∀ e, result = .error e → ¬ Harmed e) ∧ ∀ store, result = .ok (some store) →
      Given id (input.storeLocator.nameSpace,input.storeLocator.name) (.ok store) s
  | .delete _ => True

theorem Answered.stable (request : Request) (result : Except Failure (Option ErStore)) :
    Stable id (Answered id request result) := by
  intro s t moved answered
  cases request with
  | getOrCreate input => exact ⟨answered.1,fun store is => Given.stable _ s t moved (answered.2 store is)⟩
  | delete input => trivial

def Updates (f : StoreLocator → StoreLocator) {α : Type} (db : Metadata) (answer : Metadata × Except Failure α) : Prop :=
  ((∃ a, answer.2 = .ok a) ∧ answer.1 = { db with locators := db.locators.map f } ∧
    (answer.1.locators.map StoreLocator.key).Nodup) ∨ (∃ e, answer.2 = .error e) ∧ answer.1 = db

theorem updates (f : StoreLocator → StoreLocator) (db : Metadata) : Updates f db (db.update f) := by
  unfold Metadata.update
  split
  case isTrue keys => exact .inl ⟨⟨(),rfl⟩,rfl,keys⟩
  case isFalse => exact .inr ⟨⟨.duplicate,rfl⟩,rfl⟩

private theorem delete_sat {op : Op} (database : locking op = false) {f : StoreLocator → StoreLocator}
    (deletes : ∀ row, f row = row ∨ (f row).status = .DELETED ∧ Alike row (f row))
    (answers : ∀ (db : Metadata) env, Updates f db (db.answer op env))
    (counts : ∀ (t : State) db, t.advance id db op = { t with db := db, deletions := t.counted db }) :
    (call op).Sat (contract id) (service id) (fun _ _ => True) s := by
  refine Sat.perform (A := fun _ => True) (fun _ _ _ _ => trivial) (fun _ _ _ _ _ => trivial) trivial
    fun t env u answer inv _ served => ?_
  obtain ⟨-,served⟩ := service_cases served
  rcases serve_cases database served with ⟨-,rfl,-⟩ | ⟨a,given,-,rfl⟩ | ⟨e,given,-,rfl⟩
  · exact ⟨inv,fun other _ => .refl other _,trivial⟩
  · rcases answers t.db env with ⟨-,updated,keys⟩ | ⟨⟨e,refused⟩,-⟩
    · rw [counts]
      have moved : Moves id t _ := Moves.update inv deletes updated keys
      exact ⟨moved.1,moved.2,trivial⟩
    · rw [refused] at given
      cases given
  · rcases answers t.db env with ⟨⟨a,taken⟩,-⟩ | ⟨-,same⟩
    · rw [taken] at given
      cases given
    · rw [same]
      exact ⟨inv,fun other _ => .refl other t,trivial⟩

private theorem deletes_if (c : Prop) [Decidable c] (row : StoreLocator) (newName : String) :
    (if c then { row with name := newName, status := .DELETED } else row) = row ∨
      (if c then { row with name := newName, status := .DELETED } else row).status = .DELETED ∧
        Alike row (if c then { row with name := newName, status := .DELETED } else row) := by
  by_cases met : c
  · rw [if_pos met]
    exact .inr ⟨rfl,rfl,rfl,rfl,rfl,rfl,rfl,rfl⟩
  · exact .inl (if_neg met)

private theorem doDeleteStore_sat (input : ErStore) (inv : Inv s) :
    (doDeleteStore input).Sat (contract id) (service id) (fun _ _ => True) s := by
  have easy {op : Op} (easy : plain op = true) {t : State} :
      (call op).Sat (contract id) (service id) (fun _ _ => True) t :=
    (sat_plain easy (A := fun _ => True) (fun _ _ _ _ => trivial) trivial).mono fun _ _ _ _ => trivial
  have done {result : Except Failure (Option ErStore)} {t : State} :
      (ended result : Crud (Option ErStore)).Sat (contract id) (service id) (fun _ _ => True) t := fun _ _ _ => trivial
  unfold doDeleteStore
  split
  · refine Sat.bind (easy rfl) inv (fun millis t inv _ => ?_) fun _ _ _ _ => done
    exact Sat.bind (delete_sat rfl (fun row => deletes_if _ row _) (fun db _ => updates _ db) fun _ _ => rfl) inv
      (fun _ _ _ _ => done) fun _ _ _ _ => done
  · refine Sat.bind (easy rfl) inv (fun rows t inv _ => ?_) fun _ _ _ _ => done
    cases rows with
    | nil => exact done
    | cons row rest =>
      refine Sat.bind (easy rfl) inv (fun millis t inv _ => ?_) fun _ _ _ _ => done
      dsimp only
      exact Sat.bind (delete_sat rfl (fun row => deletes_if _ row _) (fun db _ => updates _ db) fun _ _ => rfl) inv
        (fun _ _ _ _ => done) fun _ _ _ _ => done

private theorem request_sat (request : Request) (inv : Inv s) (fresh : Fresh id s) :
    request.program.Sat (contract id) (service id) (Answered id request) s := by
  cases request with
  | getOrCreate input =>
    refine Sat.bind (doGetOrCreateStore_sat input inv fresh) inv (fun store t inv given => ?_)
      fun e t inv given => ?_
    · refine Sat.ended (Answered.stable _ _) ⟨nofun,?_⟩
      rintro _ ⟨⟩
      exact given
    · exact Sat.ended (Answered.stable _ _) ⟨by rintro _ ⟨⟩; exact given.harmless e rfl,nofun⟩
  | delete input => exact (doDeleteStore_sat input inv).mono fun _ _ _ _ => trivial

end

/-- One store, but for the locator's id, the options and what a processor is called. -/
structure Same (store other : ErStore) : Prop where
  nameSpace : store.storeLocator.nameSpace = other.storeLocator.nameSpace
  name : store.storeLocator.name = other.storeLocator.name
  storeType : store.storeLocator.storeType = other.storeLocator.storeType
  path : store.storeLocator.path = other.storeLocator.path
  totalPartitions : store.storeLocator.totalPartitions = other.storeLocator.totalPartitions
  keySerdesType : store.storeLocator.keySerdesType = other.storeLocator.keySerdesType
  valueSerdesType : store.storeLocator.valueSerdesType = other.storeLocator.valueSerdesType
  partitionerType : store.storeLocator.partitionerType = other.storeLocator.partitionerType
  partitions : placed store = placed other

def ErStore.storeName (input : ErStore) : StoreName := (input.storeLocator.nameSpace,input.storeLocator.name)

def Between (p : Run) (id : ℕ) (input : ErStore) (deletions : ℕ) : Prop :=
  p.shared.since id (ErStore.storeName input) = deletions ∧ p.shared.upto id (ErStore.storeName input) = deletions

/-- A name has one normal locator at most; those who ask for it between two deletions are
given one store; nobody fails because another creates it. -/
structure Single (p : Run) : Prop where
  normal : ∀ name, ∀ row ∈ p.shared.db.locators, ∀ other ∈ p.shared.db.locators,
    IsNormal name row → IsNormal name other → row = other
  same : ∀ i j input input' store other deletions, ErStore.storeName input = ErStore.storeName input' →
    p.Ended i (.getOrCreate input) (.ok (some store)) → p.Ended j (.getOrCreate input') (.ok (some other)) →
      Between p i input deletions → Between p j input' deletions → Same store other
  unharmed : ∀ i input e, p.Ended i (.getOrCreate input) (.error e) → ¬ Harmed e

private theorem Inv.one_row {s : State} (inv : Inv s) {i j : ℕ} {name : StoreName} {store other : ErStore}
    {row row' : StoreLocator} (first : Shows i name store row s) (second : Shows j name other row' s)
    (epoch : (s.origin row.storeLocatorId).2 = (s.origin row'.storeLocatorId).2) :
    Alike row row' ∧ row.storeLocatorId = row'.storeLocatorId := by
  have one : row.storeLocatorId = row'.storeLocatorId := by
    refine inv.distinct _ first.seen.below _ second.seen.below (Prod.ext ?_ epoch)
    rw [first.seen.origin,second.seen.origin]
  obtain ⟨there,member,alike⟩ := first.seen.there
  obtain ⟨there',member',alike'⟩ := second.seen.there
  have same : there = there' := by
    refine List.inj_on_of_nodup_map inv.ids member member' ?_
    rw [alike.storeLocatorId,alike'.storeLocatorId,one]
  subst same
  exact ⟨⟨one.symm,alike'.2.symm.trans alike.2,alike'.3.symm.trans alike.3,alike'.4.symm.trans alike.4,
    alike'.5.symm.trans alike.5,alike'.6.symm.trans alike.6,alike'.7.symm.trans alike.7⟩,one⟩

/-- In every run with orderly calls. -/
theorem creation_single {p : Run} (reached : (system service).Reachable p) : Single p := by
  have kept : Pool.Kept Inv contract Fresh service Answered p := by
    refine Pool.Kept.reachable fit ?_ (fun id request s inv fresh => request_sat request inv fresh) reached
    rintro _ rfl
    exact ⟨Inv.init,fun id => ⟨fun _ => nofun,fun _ => nofun,fun _ => nofun⟩⟩
  have inv := kept.invariant
  refine ⟨fun name row member other member' => inv.normal_eq member member',?_,?_⟩
  · rintro i j input input' store other deletions named first second ⟨since,upto⟩ ⟨since',upto'⟩
    obtain ⟨row,shows_,before⟩ := ((kept.ended fit first).2 store rfl).shows_ store rfl
    obtain ⟨row',shows',before'⟩ := ((kept.ended fit second).2 other rfl).shows_ other rfl
    have after := shows_.seen.since
    have after' := shows'.seen.since
    unfold ErStore.storeName at *
    rw [← named] at shows' before' since' upto' after'
    obtain ⟨alike,one⟩ := inv.one_row shows_ shows' (by omega)
    have names := shows_.named.trans shows'.named.symm
    simp only [Prod.mk.injEq] at names
    have left := shows_.detail
    have right := shows'.detail
    refine ⟨names.1,names.2,?_,?_,?_,?_,?_,?_,?_⟩
    · rw [left.storeType,right.storeType,alike.storeType]
    · rw [left.path,right.path,alike.path]
    · rw [left.totalPartitions,right.totalPartitions,alike.totalPartitions]
    · rw [left.keySerdesType,right.keySerdesType,alike.keySerdesType]
    · rw [left.valueSerdesType,right.valueSerdesType,alike.valueSerdesType]
    · rw [left.partitionerType,right.partitionerType,alike.partitionerType]
    · rw [shows_.partitions,shows'.partitions,one]
  · exact fun i input e ended => (kept.ended fit ended).1 e rfl

/-- A store of this type. -/
def typed (storeType : String) : ErStore := ⟨⟨-1,storeType,"namespace","name","",2,0,0,0⟩,[],[]⟩

def steps (id n : ℕ) : List (Pool.Act Request Env) := List.replicate n (.step id { nodes := [4,7] })

/-- Two that ask for one store: the second has to wait for the lock. -/
theorem creation_single_shared : ∃ p store other, Single p ∧
    p.Ended 0 (.getOrCreate (typed "IN_MEMORY")) (.ok (some store)) ∧
      p.Ended 1 (.getOrCreate (typed "IN_MEMORY")) (.ok (some other)) ∧ placed store = placed other := by
  have ran : ((system service).exec ⟨.init,fun _ => none⟩
      ([.invoke 0 (.getOrCreate (typed "IN_MEMORY")),.invoke 1 (.getOrCreate (typed "IN_MEMORY"))] ++
        steps 0 7 ++ steps 1 8)).any (fun p => decide
      (p.result 0 = some (.getOrCreate (typed "IN_MEMORY"),.ok (some ⟨(typed "IN_MEMORY").storeLocator,
        (List.range 2).map (newPartition (typed "IN_MEMORY") [4,7]),[]⟩)) ∧
      p.result 1 = some (.getOrCreate (typed "IN_MEMORY"),.ok (some ((newRow (typed "IN_MEMORY") 0).toErStore
        ((List.range 2).map (nodeRecord 0 (typed "IN_MEMORY") [4,7])) []))))) = true := by decide +kernel
  obtain ⟨p,run,found⟩ := (Option.any_eq_true _ _).mp ran
  obtain ⟨first,second⟩ := of_decide_eq_true found
  refine ⟨p,_,_,creation_single ⟨_,_,⟨rfl,fun _ => rfl⟩,run⟩,Pool.ended_of_result first,
    Pool.ended_of_result second,?_⟩
  decide

/-- Two that ask for a store with different store types: both find none, and the unique
index refuses the second locator. -/
theorem types_not_single : ∃ p, (system State.serve).Reachable p ∧ ¬ Single p := by
  have ran : ((system State.serve).exec ⟨.init,fun _ => none⟩
      ([.invoke 0 (.getOrCreate (typed "IN_MEMORY")),.invoke 1 (.getOrCreate (typed "ROLLPAIR_LMDB"))] ++
        steps 0 2 ++ steps 1 2 ++ steps 0 1 ++ steps 1 2)).any (fun p => decide
      (p.result 1 = some (.getOrCreate (typed "ROLLPAIR_LMDB"),.error .duplicate))) = true := by decide +kernel
  obtain ⟨p,run,found⟩ := (Option.any_eq_true _ _).mp ran
  refine ⟨p,⟨_,_,⟨rfl,fun _ => rfl⟩,run⟩,fun single => ?_⟩
  exact single.unharmed 1 _ _ (Pool.ended_of_result (of_decide_eq_true found)) trivial

end Eggroll.StoreCreation
