import Eggroll.Library.PyString
import Eggroll.TransferModel

/-! The names under which a rollsite transfer keeps what it moves: `get_rs_key` names its
table, and a tag made from that key and the id of a partition names the status of each
partition. Two transfers are kept apart as long as the keys they join are. -/
namespace Library

section
variable {α : Type} [BEq α] [LawfulBEq α]

theorem splitOn_intercalate (delim : α) {fields : List (List α)} (some_field : fields ≠ []) :
    ([delim].intercalate fields).splitOn delim = fields.flatMap (List.splitOn delim) := by
  induction fields with
  | nil => contradiction
  | cons field rest ih =>
    cases rest with
    | nil => simp
    | cons next rest =>
      have joined : [delim].intercalate (field :: next :: rest) =
          field ++ delim :: [delim].intercalate (next :: rest) := by
        simp [List.intercalate,List.intersperse]
      rw [joined,List.splitOn_eq_splitOnP,List.splitOnP_append_cons _ _ (by simp),
        ← List.splitOn_eq_splitOnP,← List.splitOn_eq_splitOnP,ih (by simp)]
      rfl

private theorem intercalate_eq_iff (delim : α) {first second : List (List α)} (some_first : first ≠ [])
    (some_second : second ≠ []) :
    [delim].intercalate first = [delim].intercalate second ↔
      first.flatMap (List.splitOn delim) = second.flatMap (List.splitOn delim) := by
  rw [← splitOn_intercalate delim some_first,← splitOn_intercalate delim some_second]
  refine ⟨fun same => by rw [same],fun same => ?_⟩
  have back := congrArg ([delim].intercalate ·) same
  simpa only [List.intercalate_splitOn] using back

end

end Library

namespace Eggroll.MetaModel
open Library

def RS_KEY_DELIM : String := "#"
def RS_KEY_PREFIX : String := "__rsk"

namespace ErRollSiteHeader

/-- The fields that say which transfer a header is of. -/
def key_fields (self : ErRollSiteHeader) : List String :=
  [self.roll_site_session_id,self.name,self.tag,self.src_role,self.src_party_id,self.dst_role,
    self.dst_party_id]

def get_rs_key (self : ErRollSiteHeader) : String :=
  RS_KEY_DELIM.intercalate (RS_KEY_PREFIX :: self.key_fields)

/-- `rp_name`, the table that holds the transfer's pairs. -/
def rp_name (self : ErRollSiteHeader) : String := self.get_rs_key

def transfer_tag_prefix (self : ErRollSiteHeader) : String := "putBatch-" ++ self.get_rs_key ++ "-"

/-- `f"{request.tag}{task.first_input.id}"`; the ids of a table's partitions count from 0. -/
def put_batch_tag (self : ErRollSiteHeader) (id : Nat) : String := self.transfer_tag_prefix ++ toString id

/-- What the delimiter cuts the fields into. -/
def pieces (self : ErRollSiteHeader) : List (List Char) :=
  self.key_fields.flatMap fun field => field.toList.splitOn '#'

end ErRollSiteHeader

/-- Two transfers have no name in common. -/
structure Unshared (first second : ErRollSiteHeader) : Prop where
  rs_key : first.get_rs_key ≠ second.get_rs_key
  rp_name : first.rp_name ≠ second.rp_name
  prefixes : first.transfer_tag_prefix ≠ second.transfer_tag_prefix
  tags : ∀ p q : Nat, first.put_batch_tag p ≠ second.put_batch_tag q

private theorem get_rs_key_toList (header : ErRollSiteHeader) :
    header.get_rs_key.toList =
      ['#'].intercalate (RS_KEY_PREFIX.toList :: header.key_fields.map String.toList) := by
  rw [ErRollSiteHeader.get_rs_key,String.toList_intercalate,List.map_cons]
  rfl

private theorem get_rs_key_eq_iff (first second : ErRollSiteHeader) :
    first.get_rs_key = second.get_rs_key ↔ first.pieces = second.pieces := by
  rw [← String.toList_inj,get_rs_key_toList,get_rs_key_toList,
    intercalate_eq_iff '#' (by simp) (by simp),List.flatMap_cons,List.flatMap_cons,
    List.append_cancel_left_eq,List.flatMap_map,List.flatMap_map]
  rfl

private theorem transfer_tag_prefix_inj {first second : ErRollSiteHeader}
    (same : first.transfer_tag_prefix = second.transfer_tag_prefix) :
    first.get_rs_key = second.get_rs_key := by
  simpa [ErRollSiteHeader.transfer_tag_prefix] using same

private theorem dash_not_in_repr (id : Nat) : '-' ∉ (toString id).toList := by
  intro inside
  have digit := Nat.isDigit_of_mem_toDigits (by decide) (by decide)
    (by simpa [Nat.toList_repr] using inside : '-' ∈ Nat.toDigits 10 id)
  revert digit
  decide

private theorem put_batch_tag_inj {first second : ErRollSiteHeader} {p q : Nat}
    (same : first.put_batch_tag p = second.put_batch_tag q) : first.get_rs_key = second.get_rs_key := by
  have cut (header : ErRollSiteHeader) (id : Nat) : (header.put_batch_tag id).toList =
      ("putBatch-".toList ++ header.get_rs_key.toList) ++ '-' :: (toString id).toList := by
    simp [ErRollSiteHeader.put_batch_tag,ErRollSiteHeader.transfer_tag_prefix]
  have chars := congrArg String.toList same
  rw [cut,cut] at chars
  have heads := append_delim_inj (dash_not_in_repr p) (dash_not_in_repr q) chars
  exact String.toList_inj.mp (List.append_cancel_left heads)

private theorem pieces_of_free {header : ErRollSiteHeader} (free : ∀ field ∈ header.key_fields, '#' ∉ field.toList) :
    header.pieces = header.key_fields.map String.toList := by
  have single : header.pieces = header.key_fields.flatMap fun field => [field.toList] := by
    apply List.flatMap_congr
    intro field member
    exact List.splitOn_eq_singleton (free field member)
  rw [single,← List.map_eq_flatMap]

/-- Two transfers have no name in common exactly when the delimiter cuts their fields into
different pieces: always when the fields differ and none of them contains it. -/
theorem unshared_iff (first second : ErRollSiteHeader) :
    (Unshared first second ↔ first.pieces ≠ second.pieces) ∧
      ((∀ field ∈ first.key_fields ++ second.key_fields, '#' ∉ field.toList) →
        first.key_fields ≠ second.key_fields → Unshared first second) := by
  have exact_ : Unshared first second ↔ first.pieces ≠ second.pieces := by
    rw [ne_eq,← get_rs_key_eq_iff]
    refine ⟨fun apart => apart.rs_key,fun differ => ⟨differ,differ,?_,?_⟩⟩
    · exact fun same => differ (transfer_tag_prefix_inj same)
    · exact fun p q same => differ (put_batch_tag_inj same)
  refine ⟨exact_,fun free differ => exact_.mpr fun same => differ ?_⟩
  rw [pieces_of_free fun field member => free field (List.mem_append_left _ member),
    pieces_of_free fun field member => free field (List.mem_append_right _ member)] at same
  exact (List.map_injective_iff.mpr fun a b => String.toList_inj.mp) same

def headerOf (name tag : String) : ErRollSiteHeader :=
  ⟨"s",name,tag,"guest","9999","host","10000","",∅,-1,-1,-1,-1,-1,-1,""⟩

/-- A delimiter that moves from the name to the tag leaves the key as it was. -/
theorem shared_keys : ¬ ∀ first second : ErRollSiteHeader, first.key_fields ≠ second.key_fields →
    Unshared first second := by
  intro always
  have apart := (always (headerOf "a#b" "c") (headerOf "a" "b#c") (by decide)).rs_key
  exact apart (by decide)

end Eggroll.MetaModel
