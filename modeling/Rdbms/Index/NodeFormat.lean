import Rdbms.Index.Stored

/-!
# Nodes in pages

A node that goes into a page comes out of it again, and the page is a valid one of its
kind. The decoder takes no encoding that is cut short, and none with bytes behind it.
Other bytes than the encoder writes may still be accepted: the page id of a leaf without a
next one is not looked at.
-/

namespace Rdbms

open Library Cursor Index

theorem local_decodeKey : Local decodeKey := by
  refine local_readU8.bind fun tag => ?_
  split
  · exact local_readI64.bind fun _ => Local.pure _
  split
  · refine local_readU16.bind fun len => Local.bind ?_ fun _ => Local.pure _
    exact (local_readBytes _).bind fun _ => Local.lift _
  · exact Local.lift _

theorem local_decodeEntry : Local decodeEntry :=
  local_decodeKey.bind fun _ => local_readU64.bind fun _ => local_readU16.bind fun _ => Local.pure _

theorem local_decodeNextLeaf : Local decodeNextLeaf := by
  refine local_readU8.bind fun hasNext => local_readU64.bind fun next => ?_
  split
  · exact Local.pure _
  split
  · exact Local.pure _
  · exact Local.lift _

theorem local_readNode : Local readNode := by
  refine (local_readBytes 4).bind fun magic => (Local.lift _).bind fun _ => ?_
  refine local_readU16.bind fun version => (Local.lift _).bind fun _ => ?_
  refine local_readU8.bind fun kind => ?_
  split
  · refine local_decodeNextLeaf.bind fun next => local_readU16.bind fun count => ?_
    exact (local_decodeEntry.readMany _).bind fun _ => Local.pure _
  split
  · refine local_readU16.bind fun keyCount => (local_decodeKey.readMany _).bind fun keys => ?_
    refine local_readU16.bind fun childCount => Local.bind ?_ fun children => ?_
    · exact (local_readU64.bind fun _ => Local.pure _).readMany _
    · exact (Local.lift _).bind fun _ => Local.pure _
  · exact Local.lift _

/-- When bytes are a node, the same bytes with more behind them are none. -/
theorem decodeNode_append {node : BTreeNode} {bs more : List UInt8} (h : decodeNode bs = .ok node)
    (hmore : more ≠ []) : ∃ message, decodeNode (bs ++ more) = .error (.error (.corruption message)) :=
  ⟨_, local_readNode.run_finish_append h hmore⟩

/-- And no part of them in front is one. -/
theorem decodeNode_front {node : BTreeNode} {front more : List UInt8}
    (h : decodeNode (front ++ more) = .ok node) (hmore : more ≠ []) :
    ∃ message, decodeNode front = .error (.error (.corruption message)) := by
  cases hfront : decodeNode front with
  | ok other =>
      obtain ⟨message, hfail⟩ := decodeNode_append hfront hmore
      rw [h] at hfail
      cases hfail
  | error stop =>
      obtain ⟨message, rfl⟩ := decodeNode_error hfront
      exact ⟨message, rfl⟩

theorem length_encodeKey_le {key : IndexKey} {bs : List UInt8} (h : encodeKey key = .ok bs) :
    bs.length ≤ 2 ^ 17 := by
  cases key with
  | integer value =>
      cases h
      rw [List.length_cons, length_le64]
      decide
  | text value =>
      obtain ⟨len, hlen, h⟩ := except_bind_eq_ok.1 h
      obtain ⟨hlt, rfl⟩ := writeU16Len_eq_ok.1 hlen
      cases h
      rw [List.length_cons, List.length_append, length_le16]
      omega

theorem length_encodeEntry_le {entry : IndexEntry} {bs : List UInt8}
    (h : encodeEntry entry = .ok bs) : bs.length ≤ 2 ^ 18 := by
  obtain ⟨keyBytes, hkey, h⟩ := except_bind_eq_ok.1 h
  have hlen := length_encodeKey_le hkey
  cases h
  rw [List.length_append, List.length_append, length_le64, length_le16]
  omega

/-- A node that can be encoded is short enough to be read back. -/
theorem length_encodeNode_lt {node : BTreeNode} {bs : List UInt8} (h : encodeNode node = .ok bs) :
    bs.length < 2 ^ 64 := by
  cases node with
  | leaf next entries =>
      obtain ⟨count, hcount, h⟩ := except_bind_eq_ok.1 h
      obtain ⟨encoded, hencoded, h⟩ := except_bind_eq_ok.1 h
      obtain ⟨hlt, rfl⟩ := writeU16Len_eq_ok.1 hcount
      have hflat := length_flatten_mapM_le hencoded fun entry _ _ => length_encodeEntry_le
      cases h
      simp only [List.length_append, length_le16, length_encodeNextLeaf, nodeMagic,
        List.length_cons, List.length_nil]
      omega
  | internal keys children =>
      obtain ⟨⟨⟩, hshape, h⟩ := except_bind_eq_ok.1 h
      obtain ⟨keyCount, hkeyCount, h⟩ := except_bind_eq_ok.1 h
      obtain ⟨encoded, hencoded, h⟩ := except_bind_eq_ok.1 h
      obtain ⟨childCount, hchildCount, h⟩ := except_bind_eq_ok.1 h
      obtain ⟨hkeys, rfl⟩ := writeU16Len_eq_ok.1 hkeyCount
      obtain ⟨hchildren, rfl⟩ := writeU16Len_eq_ok.1 hchildCount
      have hflat := length_flatten_mapM_le hencoded fun key _ _ => length_encodeKey_le
      cases h
      simp only [List.length_append, length_le16, length_children, nodeMagic, List.length_cons,
        List.length_nil]
      omega

/-- The page that a node is put into is valid, has the id it was made for and the index
type, and the node comes out of it again. The encoding of a node is refused as corrupt when
it is cut short and when bytes stand behind it. -/
theorem node_storage_round_trip :
    (∀ pageId node page, nodeToPage pageId node = .ok page →
      page.validate = .ok () ∧
        (∃ header, page.header = .ok header ∧ header.pageId = pageId ∧ header.pageType = .index) ∧
        nodeFromPage page = .ok node) ∧
    ∀ node bs front more, encodeNode node = .ok bs → more ≠ [] →
      (∃ message, decodeNode (bs ++ more) = .error (.error (.corruption message))) ∧
        (bs = front ++ more →
          ∃ message, decodeNode front = .error (.error (.corruption message))) := by
  refine ⟨fun pageId node page h => ?_, fun node bs front more h hmore => ?_⟩
  · obtain ⟨⟨header, hvalid, hid, htype⟩, hnode⟩ := nodeToPage_eq_ok h
    exact ⟨(Page.validate_eq_ok_iff page).2 ⟨header, hvalid⟩,
      ⟨header, (Page.header_eq_ok_iff page header).2 hvalid.toShape, hid, htype⟩, hnode⟩
  · have hdecode := decodeNode_of_encodeNode h (length_encodeNode_lt h)
    refine ⟨decodeNode_append hdecode hmore, ?_⟩
    rintro rfl
    exact decodeNode_front hdecode hmore

end Rdbms
