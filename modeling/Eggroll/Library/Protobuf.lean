import Mathlib.Data.List.Basic
import Mathlib.Tactic.Common
import Eggroll.Library.PyBytes

/-! Protocol-buffer messages as the generated Python classes show them: a keyword
constructor that checks names, kinds and ranges, attribute reads with their defaults,
and a runtime that turns a message into bytes and back, which is a parameter. -/
namespace Library.Protobuf

abbrev StringMap := Std.ExtTreeMap String String compare

inductive Kind (T : Type)
  | int32 | int64 | double | bool | string | bytes | stringMap
  | message (type : T)
  | repeated (type : T)
deriving DecidableEq

/-- One field of a message declaration. -/
structure FieldDescriptor (T : Type) where
  number : Nat
  name : String
  kind : Kind T

class Schema (T : Type) where
  fields : T → List (FieldDescriptor T)

mutual
inductive Message (T : Type)
  | mk (type : T) (fields : List (String × Value T))
/-- `unset` is an absent submessage, and `None` among the arguments of a constructor. A
double is its bit pattern. -/
inductive Value (T : Type)
  | unset
  | int (value : Int)
  | double (bits : UInt64)
  | bool (value : Bool)
  | string (value : String)
  | bytes (value : Bytes)
  | stringMap (value : StringMap)
  | message (value : Message T)
  | repeated (values : List (Message T))
end

inductive Raised | valueError | attributeError | decodeError
deriving DecidableEq

variable {T : Type}

def Message.type : Message T → T | .mk type _ => type

def Message.fields : Message T → List (String × Value T) | .mk _ fields => fields

def InInt32 (value : Int) : Prop := -2147483648 ≤ value ∧ value < 2147483648

def InInt64 (value : Int) : Prop := -9223372036854775808 ≤ value ∧ value < 9223372036854775808

instance (value : Int) : Decidable (InInt32 value) := inferInstanceAs (Decidable (_ ∧ _))

instance (value : Int) : Decidable (InInt64 value) := inferInstanceAs (Decidable (_ ∧ _))

@[simp] def Kind.accepts [DecidableEq T] : Kind T → Value T → Bool
  | _, .unset => true
  | .int32, .int value => decide (InInt32 value)
  | .int64, .int value => decide (InInt64 value)
  | .double, .double _ => true
  | .bool, .bool _ => true
  | .string, .string _ => true
  | .bytes, .bytes _ => true
  | .stringMap, .stringMap _ => true
  | .message type, .message value => decide (value.type = type)
  | .repeated type, .repeated values => values.all fun value => decide (value.type = type)
  | _, _ => false

def Kind.default : Kind T → Value T
  | .int32 => .int 0
  | .int64 => .int 0
  | .double => .double 0
  | .bool => .bool false
  | .string => .string ""
  | .bytes => .bytes []
  | .stringMap => .stringMap ∅
  | .message _ => .unset
  | .repeated _ => .repeated []

def Kind.stored (kind : Kind T) : Value T → Value T
  | .unset => kind.default
  | value => value

abbrev Arguments (T : Type) := List (String × Value T)

@[simp] def Arguments.given (arguments : Arguments T) (name : String) : Value T :=
  (arguments.lookup name).getD .unset

section Schema
variable [Schema T]

@[simp] def names (type : T) : List String := (Schema.fields type).map FieldDescriptor.name

/-- What a message made from checked arguments holds: each declared field, with its default
where the argument is missing. -/
def fill (type : T) (arguments : Arguments T) : Message T :=
  .mk type ((Schema.fields type).map fun field => (field.name,field.kind.stored (arguments.given field.name)))

def checked [DecidableEq T] (type : T) (arguments : Arguments T) : Bool :=
  arguments.all (fun argument => decide (argument.1 ∈ names type)) &&
    (Schema.fields type).all fun field => field.kind.accepts (arguments.given field.name)

def construct [DecidableEq T] (type : T) (arguments : Arguments T) : Except Raised (Message T) :=
  if checked type arguments then .ok (fill type arguments) else .error .valueError

def Message.seenAs (message : Message T) (type : T) : Message T :=
  .mk type ((Schema.fields type).map fun field =>
    (field.name,match (Schema.fields message.type).find? (·.number == field.number) with
      | some source => (message.fields.lookup source.name).getD field.kind.default
      | none => field.kind.default))

end Schema

namespace Message

def get (message : Message T) (name : String) : Value T :=
  (message.fields.lookup name).getD .unset

def int (message : Message T) (name : String) : Int :=
  match message.get name with | .int value => value | _ => 0

def double (message : Message T) (name : String) : UInt64 :=
  match message.get name with | .double bits => bits | _ => 0

def bool (message : Message T) (name : String) : Bool :=
  match message.get name with | .bool value => value | _ => false

def string (message : Message T) (name : String) : String :=
  match message.get name with | .string value => value | _ => ""

def bytes (message : Message T) (name : String) : Bytes :=
  match message.get name with | .bytes value => value | _ => []

def stringMap (message : Message T) (name : String) : StringMap :=
  match message.get name with | .stringMap value => value | _ => ∅

def message [Schema T] (self : Message T) (type : T) (name : String) : Message T :=
  match self.get name with | .message value => value | _ => fill type []

def repeated (message : Message T) (name : String) : List (Message T) :=
  match message.get name with | .repeated values => values | _ => []

end Message

/-- The protocol-buffer runtime: `SerializeToString` and `ParseFromString`. -/
structure Runtime (T Wire : Type) where
  serializeToString : Message T → Wire
  parseFromString : T → Wire → Except Raised (Message T)

def Runtime.Faithful {Wire : Type} [Schema T] [DecidableEq T] (runtime : Runtime T Wire) : Prop :=
  ∀ type arguments (message : Message T), construct type arguments = .ok message →
    runtime.parseFromString type (runtime.serializeToString message) = .ok message

def records [Schema T] [DecidableEq T] : Runtime T (Message T) where
  serializeToString := id
  parseFromString type message := .ok (if message.type = type then message else message.seenAs type)

theorem sequence_ok {ε α β : Type} {first : Except ε α} {next : α → Except ε β} {result : β} :
    (first >>= next) = .ok result ↔ ∃ value, first = .ok value ∧ next value = .ok result := by
  cases first with
  | error error => simp [bind,Except.bind]
  | ok value => simp [bind,Except.bind]

variable [Schema T] [DecidableEq T]

theorem construct_ok {type : T} {arguments : Arguments T} {message : Message T} :
    construct type arguments = .ok message ↔
      checked type arguments = true ∧ fill type arguments = message := by
  by_cases passed : checked type arguments = true
  · simp [construct,passed]
  · simp [construct,passed]

theorem construct_type {type : T} {arguments : Arguments T} {message : Message T}
    (made : construct type arguments = .ok message) : message.type = type := by
  obtain ⟨-,rfl⟩ := construct_ok.mp made
  rfl

theorem records_faithful : (records : Runtime T (Message T)).Faithful := by
  intro type arguments message made
  simp [records,construct_type made]

/-- `write` makes a message of the type exactly where the value fits, and `read` then
recovers the value. -/
structure Conveys {α : Type} (type : T) (write : α → Except Raised (Message T)) (read : Message T → α)
    (fits : α → Prop) (value : α) : Prop where
  wrote : fits value → ∃ arguments message, construct type arguments = .ok message ∧
    write value = .ok message ∧ read message = value
  fit : ∀ message, write value = .ok message → fits value

variable {α : Type} {type : T} {write : α → Except Raised (Message T)} {read : Message T → α}
  {fits : α → Prop}

theorem Conveys.scalar {value : α} (arguments : Arguments T) (wrote : write value = construct type arguments)
    (fit : checked type arguments = true ↔ fits value) (restored : read (fill type arguments) = value) :
    Conveys type write read fits value := by
  constructor
  · intro fitting
    have made := construct_ok.mpr ⟨fit.mpr fitting,rfl⟩
    exact ⟨arguments,_,made,wrote.trans made,restored⟩
  · intro message written
    exact fit.mp (construct_ok.mp (wrote.symm.trans written)).1

theorem Conveys.nested {value : α} (fit : ∀ message, write value = .ok message → fits value)
    (wrote : fits value → ∃ arguments, write value = construct type arguments ∧
      checked type arguments = true ∧ read (fill type arguments) = value) :
    Conveys type write read fits value := by
  refine ⟨fun fitting => ?_,fit⟩
  obtain ⟨arguments,written,passed,restored⟩ := wrote fitting
  have made := construct_ok.mpr ⟨passed,rfl⟩
  exact ⟨arguments,_,made,written.trans made,restored⟩

theorem Conveys.wrote_list {values : List α} (each : ∀ value ∈ values, Conveys type write read fits value)
    (all : ∀ value ∈ values, fits value) :
    ∃ messages, values.mapM write = .ok messages ∧ (∀ message ∈ messages, message.type = type) ∧
      messages.map read = values := by
  induction values with
  | nil => exact ⟨[],rfl,nofun,rfl⟩
  | cons value values ih =>
    rw [List.forall_mem_cons] at each all
    obtain ⟨arguments,message,made,wrote,same⟩ := each.1.wrote all.1
    obtain ⟨messages,rest,others,equal⟩ := ih each.2 all.2
    refine ⟨message :: messages,?_,List.forall_mem_cons.mpr ⟨construct_type made,others⟩,
      by rw [List.map_cons,same,equal]⟩
    rw [List.mapM_cons,wrote,rest]
    rfl

theorem Conveys.fit_list {values : List α} (each : ∀ value ∈ values, Conveys type write read fits value)
    {messages : List (Message T)} (wrote : values.mapM write = .ok messages) :
    ∀ value ∈ values, fits value := by
  induction values generalizing messages with
  | nil => exact nofun
  | cons value values ih =>
    rw [List.forall_mem_cons] at each ⊢
    rw [List.mapM_cons] at wrote
    obtain ⟨message,first,wrote⟩ := sequence_ok.mp wrote
    obtain ⟨rest,others,-⟩ := sequence_ok.mp wrote
    exact ⟨each.1.fit message first,ih each.2 others⟩

end Library.Protobuf
