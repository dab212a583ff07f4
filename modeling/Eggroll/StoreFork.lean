import Eggroll.Library.PyString
import Eggroll.Library.System
import Eggroll.MetaModel
import Mathlib.Data.List.DropRight
import Mathlib.Data.List.Nodup

/-! The names of forked stores (`ErStoreLocator.fork`). The class has a counter and a lock for
it, but `self.seq += 1` makes a counter of the object's own, which a later copy of the object
takes along. -/
namespace Eggroll.StoreFork
open Library
open MetaModel (ErStoreLocator)

def DEFAULT_FORK_DELIM : String := "_"

/-- What `datetime.now()` reads, to the microsecond. -/
structure DateTime where
  year : Fin 10000
  month : Fin 13
  day : Fin 32
  hour : Fin 24
  minute : Fin 60
  second : Fin 60
  microsecond : Fin 1000000
deriving Repr, DecidableEq

/-- The format `%Y%m%d.%H%M%S.%f`. -/
def time_now_ns (now : DateTime) : Str :=
  padded 4 now.year ++ (padded 2 now.month ++ (padded 2 now.day ++ ('.' :: (padded 2 now.hour ++
    (padded 2 now.minute ++ (padded 2 now.second ++ ('.' :: padded 6 now.microsecond)))))))

/-- A locator with what `self.seq` reads: the object's own counter, or the zero of the class. -/
structure Forkable where
  locator : ErStoreLocator
  seq : ℕ

def Forkable.name (self : Forkable) : Str := self.locator.name.toList

/-- The object afterwards and the fork. The copy is made before the counter is raised. -/
def Forkable.fork (self : Forkable) (postfix_ delim : String) (now : DateTime) : Forkable × Forkable :=
  let duplicate := self
  let stem := beforeLast delim.toList duplicate.name
  let self := { self with seq := self.seq + 1 }
  let final_postfix := if postfix_ = "" then time_now_ns now ++ '.' :: decimals self.seq else postfix_.toList
  (self,{ duplicate with locator :=
    { duplicate.locator with name := String.ofList (stem ++ delim.toList ++ final_postfix) } })

/-- What the default postfix makes the name of a fork of: the prefix with the delimiter, what the
clock reads and the counter. -/
structure Stamp where
  before : Str
  now : DateTime
  count : ℕ
deriving Repr, DecidableEq

def Stamp.name (stamp : Stamp) : Str := stamp.before ++ time_now_ns stamp.now ++ '.' :: decimals stamp.count

def Forkable.stamp (self : Forkable) (delim : String) (now : DateTime) : Stamp where
  before := beforeLast delim.toList self.name ++ delim.toList
  now := now
  count := self.seq + 1

def readNumber (bound : ℕ) (text : Str) (start width : ℕ) : Option (Fin bound) :=
  (parseDigits ((text.drop start).take width)).bind fun n => if h : n < bound then some ⟨n,h⟩ else none

/-- The clock reading that a text in the format of `time_now_ns` is of. -/
def readClock (text : Str) : Option DateTime := do
  let year ← readNumber 10000 text 0 4
  let month ← readNumber 13 text 4 2
  let day ← readNumber 32 text 6 2
  let hour ← readNumber 24 text 9 2
  let minute ← readNumber 60 text 11 2
  let second ← readNumber 60 text 13 2
  let microsecond ← readNumber 1000000 text 16 6
  return ⟨year,month,day,hour,minute,second,microsecond⟩

def Stamp.read (name : Str) : Option Stamp :=
  let head := (name.rdropWhile (· ≠ '.')).dropLast
  (readClock (head.drop (head.length - 22))).bind fun now =>
    (parseDigits (name.rtakeWhile (· ≠ '.'))).bind fun count =>
      let stamp := ⟨head.take (head.length - 22),now,count⟩
      if stamp.name = name then some stamp else none

/-- The locators in the order they were made; `given` and `stamps` are history, the names at
the start and the stamps of the forks. -/
structure State where
  objects : List Forkable
  given : List Str
  stamps : List Stamp

/-- A fork of the `i`-th object with the default postfix. -/
structure Act where
  i : ℕ
  delim : String
  now : DateTime

def step (s : State) (act : Act) : Option State :=
  (s.objects[act.i]?).map fun object =>
    let (self,duplicate) := object.fork "" act.delim act.now
    { s with
      objects := s.objects.set act.i self ++ [duplicate]
      stamps := s.stamps ++ [object.stamp act.delim act.now] }

def system : System State Act where
  start s := s.given = s.objects.map Forkable.name ∧ s.stamps = []
  step := step

def State.produced (s : State) : List Str := (s.objects.drop s.given.length).map Forkable.name

/-- No two forks have one name, and none has a name of the start. -/
structure Unique (s : State) : Prop where
  distinct : s.produced.Nodup
  fresh : ∀ name ∈ s.produced, name ∉ s.given

/-- No earlier fork has the same prefix with delimiter, the same clock reading and the same counter,
and no name of the start reads as these three. -/
def careful (s : State) (act : Act) : Bool :=
  (s.objects[act.i]?).all fun object =>
    !s.stamps.contains (object.stamp act.delim act.now) &&
      !(s.given.filterMap Stamp.read).contains (object.stamp act.delim act.now)

private theorem length_time_now_ns (now : DateTime) : (time_now_ns now).length = 22 := by
  simp [time_now_ns,length_padded]

private theorem time_now_ns_inj {now now' : DateTime} (same : time_now_ns now = time_now_ns now') : now = now' := by
  obtain ⟨year,same⟩ := padded_append_inj (by omega) (by omega) same
  obtain ⟨month,same⟩ := padded_append_inj (by omega) (by omega) same
  obtain ⟨day,same⟩ := padded_append_inj (by omega) (by omega) same
  obtain ⟨hour,same⟩ := padded_append_inj (by omega) (by omega) (List.cons.inj same).2
  obtain ⟨minute,same⟩ := padded_append_inj (by omega) (by omega) same
  obtain ⟨second,same⟩ := padded_append_inj (by omega) (by omega) same
  have microsecond := padded_inj (by omega) (by omega) (List.cons.inj same).2
  obtain ⟨_,_,_,_,_,_,_⟩ := now
  obtain ⟨_,_,_,_,_,_,_⟩ := now'
  simp only [DateTime.mk.injEq]
  exact ⟨Fin.ext year,Fin.ext month,Fin.ext day,Fin.ext hour,Fin.ext minute,Fin.ext second,Fin.ext microsecond⟩

private theorem dot_free (n : ℕ) : '.' ∉ decimals n := fun member => absurd (digit_of_mem_decimals member) (by decide)

private theorem Stamp.name_inj {first second : Stamp} (same : first.name = second.name) : first = second := by
  obtain ⟨before,now,count⟩ := first
  obtain ⟨before',now',count'⟩ := second
  have heads := append_delim_inj (dot_free count) (dot_free count') same
  have counts := List.append_cancel_left ((congrArg (· ++ _) heads).symm.trans same)
  obtain rfl : count = count' := decimals_inj (List.cons.inj counts).2
  obtain ⟨rfl,clocks⟩ := List.append_inj' heads (by rw [length_time_now_ns,length_time_now_ns])
  obtain rfl : now = now' := time_now_ns_inj clocks
  rfl

private theorem readNumber_padded {bound width start : ℕ} (n : Fin bound) {text : Str} (front back : Str)
    (is : text = front ++ (padded width n ++ back)) (starts : front.length = start) (some_digit : 0 < width)
    (fits : bound ≤ 10 ^ width) : readNumber bound text start width = some n := by
  rw [readNumber,is,← starts,List.drop_left,List.take_left' (length_padded width n),
    parseDigits_padded some_digit (by omega),Option.bind_some,dif_pos n.isLt]

private theorem readClock_time_now_ns (now : DateTime) : readClock (time_now_ns now) = some now := by
  have year : readNumber 10000 (time_now_ns now) 0 4 = some now.year := by
    refine readNumber_padded now.year ([]) (padded 2 now.month ++ (padded 2 now.day ++ ('.' :: (padded 2 now.hour ++ (padded 2 now.minute ++ (padded 2 now.second ++ ('.' :: (padded 6 now.microsecond)))))))) ?_ ?_ (by decide) (by decide)
    · simp [time_now_ns]
    · simp
  have month : readNumber 13 (time_now_ns now) 4 2 = some now.month := by
    refine readNumber_padded now.month (padded 4 now.year) (padded 2 now.day ++ ('.' :: (padded 2 now.hour ++ (padded 2 now.minute ++ (padded 2 now.second ++ ('.' :: (padded 6 now.microsecond))))))) ?_ ?_ (by decide) (by decide)
    · simp [time_now_ns]
    · simp [length_padded]
  have day : readNumber 32 (time_now_ns now) 6 2 = some now.day := by
    refine readNumber_padded now.day (padded 4 now.year ++ (padded 2 now.month)) ('.' :: (padded 2 now.hour ++ (padded 2 now.minute ++ (padded 2 now.second ++ ('.' :: (padded 6 now.microsecond)))))) ?_ ?_ (by decide) (by decide)
    · simp [time_now_ns]
    · simp [length_padded]
  have hour : readNumber 24 (time_now_ns now) 9 2 = some now.hour := by
    refine readNumber_padded now.hour (padded 4 now.year ++ (padded 2 now.month ++ (padded 2 now.day ++ (['.'])))) (padded 2 now.minute ++ (padded 2 now.second ++ ('.' :: (padded 6 now.microsecond)))) ?_ ?_ (by decide) (by decide)
    · simp [time_now_ns]
    · simp [length_padded]
  have minute : readNumber 60 (time_now_ns now) 11 2 = some now.minute := by
    refine readNumber_padded now.minute (padded 4 now.year ++ (padded 2 now.month ++ (padded 2 now.day ++ ('.' :: (padded 2 now.hour))))) (padded 2 now.second ++ ('.' :: (padded 6 now.microsecond))) ?_ ?_ (by decide) (by decide)
    · simp [time_now_ns]
    · simp [length_padded]
  have second : readNumber 60 (time_now_ns now) 13 2 = some now.second := by
    refine readNumber_padded now.second (padded 4 now.year ++ (padded 2 now.month ++ (padded 2 now.day ++ ('.' :: (padded 2 now.hour ++ (padded 2 now.minute)))))) ('.' :: (padded 6 now.microsecond)) ?_ ?_ (by decide) (by decide)
    · simp [time_now_ns]
    · simp [length_padded]
  have microsecond : readNumber 1000000 (time_now_ns now) 16 6 = some now.microsecond := by
    refine readNumber_padded now.microsecond (padded 4 now.year ++ (padded 2 now.month ++ (padded 2 now.day ++ ('.' :: (padded 2 now.hour ++ (padded 2 now.minute ++ (padded 2 now.second ++ (['.'])))))))) ([]) ?_ ?_ (by decide) (by decide)
    · simp [time_now_ns]
    · simp [length_padded]
  rw [readClock,year,month,day,hour,minute,second,microsecond]
  rfl

private theorem Stamp.split_name (stamp : Stamp) : stamp.name.rtakeWhile (· ≠ '.') = decimals stamp.count ∧
    (stamp.name.rdropWhile (· ≠ '.')).dropLast = stamp.before ++ time_now_ns stamp.now := by
  have free : ∀ c ∈ (decimals stamp.count).reverse, decide (c ≠ '.') = true := fun c member =>
    decide_eq_true fun is => dot_free _ (is ▸ List.mem_reverse.mp member)
  rw [List.rtakeWhile,List.rdropWhile,Stamp.name,List.reverse_append,List.reverse_cons,List.append_assoc,
    List.takeWhile_append_of_pos free,List.dropWhile_append_of_pos free]
  simp

private theorem Stamp.read_name (stamp : Stamp) : Stamp.read stamp.name = some stamp := by
  obtain ⟨before,now,count⟩ := stamp
  obtain ⟨digits,head⟩ := Stamp.split_name ⟨before,now,count⟩
  have size : (before ++ time_now_ns now).length - 22 = before.length := by
    rw [List.length_append,length_time_now_ns,Nat.add_sub_cancel]
  simp only [Stamp.read,head,digits,size,List.drop_left,readClock_time_now_ns,parseDigits_decimals,Option.bind_some,
    List.take_left,if_true]

private theorem Stamp.read_iff {name : Str} {stamp : Stamp} : Stamp.read name = some stamp ↔ stamp.name = name := by
  constructor
  · intro read
    obtain ⟨now,-,read⟩ := Option.bind_eq_some_iff.mp read
    obtain ⟨count,-,read⟩ := Option.bind_eq_some_iff.mp read
    simp only at read
    split at read
    · rename_i same
      cases read
      exact same
    · cases read
  · rintro rfl
    exact stamp.read_name

private theorem Stamp.nodup_map_iff (stamps : List Stamp) : (stamps.map Stamp.name).Nodup ↔ stamps.Nodup :=
  List.nodup_map_iff fun _ _ same => Stamp.name_inj same

private theorem name_fork (self : Forkable) (delim : String) (now : DateTime) :
    (self.fork "" delim now).2.name = (self.stamp delim now).name := by
  simp [Forkable.fork,Forkable.stamp,Stamp.name,Forkable.name]

def Named (s : State) : Prop := s.objects.map Forkable.name = s.given ++ s.stamps.map Stamp.name

private theorem named_start {s : State} (started : system.start s) : Named s := by
  obtain ⟨given,none_yet⟩ := started
  rw [Named,given,none_yet,List.map_nil,List.append_nil]

section
variable {s : State} (named : Named s)
include named

theorem Named.produced : s.produced = s.stamps.map Stamp.name := by
  rw [State.produced,List.map_drop,named]
  exact List.drop_left

private theorem Named.unique_iff :
    Unique s ↔ s.stamps.Nodup ∧ ∀ stamp ∈ s.stamps, stamp.name ∉ s.given := by
  constructor
  · rintro ⟨distinct,fresh⟩
    rw [named.produced] at distinct fresh
    exact ⟨(Stamp.nodup_map_iff _).mp distinct,fun stamp member => fresh _ (List.mem_map_of_mem member)⟩
  · rintro ⟨distinct,fresh⟩
    refine ⟨?_,fun name member => ?_⟩
    · rw [named.produced]
      exact (Stamp.nodup_map_iff _).mpr distinct
    · rw [named.produced] at member
      obtain ⟨stamp,made,rfl⟩ := List.mem_map.mp member
      exact fresh stamp made

theorem Named.step {act : Act} {t : State} (stepped : step s act = some t) : Named t := by
  obtain ⟨object,found,rfl⟩ := Option.map_eq_some_iff.mp stepped
  have kept : (s.objects.set act.i (object.fork "" act.delim act.now).1).map Forkable.name =
      s.objects.map Forkable.name := by
    apply List.ext_getElem?
    intro j
    rw [List.getElem?_map,List.getElem?_map,List.getElem?_set]
    split
    next here =>
      rw [← here,found]
      obtain ⟨inside,_⟩ := List.getElem?_eq_some_iff.mp found
      rw [if_pos inside]
      rfl
    · rfl
  change (s.objects.set act.i (object.fork "" act.delim act.now).1 ++
    [(object.fork "" act.delim act.now).2]).map Forkable.name = s.given ++ (s.stamps ++ [_]).map Stamp.name
  rw [List.map_append,kept,named,List.map_append,List.append_assoc,List.map_singleton,name_fork]
  rfl

private theorem Named.step_unique (unique : Unique s) {act : Act} {t : State} (stepped : StoreFork.step s act = some t) :
    Unique t ↔ careful s act = true := by
  have next := named.step stepped
  obtain ⟨distinct,fresh⟩ := named.unique_iff.mp unique
  obtain ⟨object,found,rfl⟩ := Option.map_eq_some_iff.mp stepped
  have permitted : careful s act = true ↔ object.stamp act.delim act.now ∉ s.stamps ∧
      (object.stamp act.delim act.now).name ∉ s.given := by
    rw [careful,found,Option.all_some,Bool.and_eq_true,Bool.not_eq_true',Bool.not_eq_true',← Bool.not_eq_true,
      ← Bool.not_eq_true,List.contains_iff_mem,List.contains_iff_mem]
    refine and_congr_right fun _ => not_congr ?_
    rw [List.mem_filterMap]
    constructor
    · rintro ⟨name,given,read⟩
      exact Stamp.read_iff.mp read ▸ given
    · exact fun given => ⟨_,given,Stamp.read_iff.mpr rfl⟩
  rw [next.unique_iff,permitted]
  change (s.stamps ++ [object.stamp act.delim act.now]).Nodup ∧
    (∀ stamp ∈ s.stamps ++ [object.stamp act.delim act.now], stamp.name ∉ s.given) ↔ _
  rw [List.nodup_append_comm,List.singleton_append,List.nodup_cons]
  constructor
  · rintro ⟨⟨new,_⟩,none_given⟩
    exact ⟨new,none_given _ (List.mem_append_right _ List.mem_cons_self)⟩
  · rintro ⟨new,not_given⟩
    refine ⟨⟨new,distinct⟩,fun stamp member => ?_⟩
    obtain old | rfl := List.mem_append.mp member |>.imp_right List.mem_singleton.mp
    · exact fresh stamp old
    · exact not_given

end

/-- The names of the forks are unique in every run in which no fork has prefix, clock reading and
counter of an earlier one or of a name of the start; a fork that has them is not unique. -/
theorem forks_unique {s : State} (reached : (system.restrict careful).Reachable s) :
    Unique s ∧ ∀ act t, system.step s act = some t → (Unique t ↔ careful s act = true) := by
  have both : Named s ∧ Unique s := by
    apply reached.invariant (P := fun s => Named s ∧ Unique s)
    · intro s started
      have named := named_start started
      refine ⟨named,named.unique_iff.mpr ?_⟩
      rw [started.2]
      exact ⟨List.nodup_nil,fun _ member => absurd member List.not_mem_nil⟩
    · rintro s act t ⟨named,unique⟩ stepped
      obtain ⟨allowed,taken⟩ := (System.restrict_step_iff _ _ _ _ _).mp stepped
      exact ⟨named.step taken,(named.step_unique unique taken).mpr allowed⟩
  exact ⟨both.2,fun _ _ stepped => both.1.step_unique both.2 stepped⟩

/-- With one delimiter two forks have one stamp exactly when prefix, clock reading and counter are
the same. -/
theorem stamp_iff (self other : Forkable) (delim : String) (now now' : DateTime) :
    self.stamp delim now = other.stamp delim now' ↔
      beforeLast delim.toList self.name = beforeLast delim.toList other.name ∧ now = now' ∧ self.seq = other.seq := by
  rw [Forkable.stamp,Forkable.stamp,Stamp.mk.injEq,List.append_cancel_right_eq,Nat.succ_inj]

def exampleTable : Forkable := ⟨⟨-1,"LMDB","namespace","table","",1,0,0,0⟩,0⟩

def noon (microsecond : Fin 1000000) : DateTime := ⟨2024,1,1,12,0,0,microsecond⟩

def exampleStart : State := ⟨[exampleTable,exampleTable],["table".toList,"table".toList],[]⟩

private theorem exampleStart_start : system.start exampleStart := by
  refine ⟨?_,rfl⟩
  decide

/-- Equal locators are forked, one of them twice within a microsecond, and a fork is forked. -/
theorem forks_unique_run : ∃ s, (system.restrict careful).Reachable s ∧ s.produced.length = 4 ∧ s.produced.Nodup := by
  have ran : ((system.restrict careful).exec exampleStart
      [⟨0,"_",noon 1⟩,⟨0,"_",noon 1⟩,⟨1,"_",noon 2⟩,⟨2,"_",noon 3⟩]).any (fun s => decide (s.produced.length = 4)) =
        true := by decide +kernel
  obtain ⟨s,run,found⟩ := (Option.any_eq_true _ _).mp ran
  have reached : (system.restrict careful).Reachable s := ⟨_,_,exampleStart_start,run⟩
  exact ⟨s,reached,of_decide_eq_true found,(forks_unique reached).1.distinct⟩

/-- Equal locators forked within a microsecond, each with its own counter, and a fork that is
forked within the microsecond of its making get one name. -/
theorem forks_collide : ¬ ∀ s, system.Reachable s → Unique s := by
  intro claimed
  have ran : (system.exec exampleStart [⟨0,"_",noon 1⟩,⟨1,"_",noon 1⟩,⟨2,"_",noon 1⟩]).any
      (fun s => !decide s.produced.Nodup) = true := by decide +kernel
  obtain ⟨s,run,found⟩ := (Option.any_eq_true _ _).mp ran
  rw [Bool.not_eq_true',decide_eq_false_iff_not] at found
  exact found (claimed s ⟨_,_,exampleStart_start,run⟩).distinct

end Eggroll.StoreFork
