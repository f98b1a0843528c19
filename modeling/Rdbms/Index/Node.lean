import Rdbms.Index.Basic

/-!
# Nodes in pages

A node that could be encoded into a page reads back from that page. This is the
only fact about the byte format that the results about the tree use.
-/

namespace Rdbms

open Library BPlusTree Index Cursor

/-! ## Round trips -/

theorem reads_decodeKey {key : IndexKey} {bs : List UInt8} (h : encodeKey key = .ok bs) :
    Reads decodeKey bs key := by
  cases key with
  | integer value =>
      cases h
      refine Reads.bind (reads_readU8 errors keyInteger) ?_
      rw [if_pos rfl]
      exact Reads.map (reads_readI64 errors value) (Reads.pure _)
  | text value =>
      obtain ⟨len, hlen, hbs⟩ := except_bind_eq_ok.1 h
      obtain ⟨hlt, rfl⟩ := writeU16Len_eq_ok.1 hlen
      cases hbs
      refine Reads.bind (reads_readU8 errors keyText) ?_
      rw [if_neg (by decide), if_pos rfl]
      refine Reads.bind (reads_readU16 errors _) ?_
      rw [toNat_u16Len hlt]
      exact Reads.map (reads_readText errors value _) (Reads.pure _)

theorem reads_decodeEntry {entry : IndexEntry} {bs : List UInt8}
    (h : encodeEntry entry = .ok bs) : Reads decodeEntry bs entry := by
  obtain ⟨key, hkey, hbs⟩ := except_bind_eq_ok.1 h
  cases hbs
  refine Reads.bind (reads_decodeKey hkey) ?_
  refine Reads.bind (reads_readU64 errors _) ?_
  exact Reads.map (reads_readU16 errors _) (Reads.pure _)

theorem reads_decodeNextLeaf (nextLeaf : Option PageId) :
    Reads decodeNextLeaf (encodeNextLeaf nextLeaf) nextLeaf := by
  cases nextLeaf with
  | none =>
      refine Reads.bind (reads_readU8 errors 0) ?_
      refine Reads.map (reads_readU64 errors 0) ?_
      rw [if_pos rfl]
      exact Reads.pure none
  | some pageId =>
      refine Reads.bind (reads_readU8 errors 1) ?_
      refine Reads.map (reads_readU64 errors pageId.val) ?_
      rw [if_neg (by decide), if_pos rfl]
      exact Reads.pure (some pageId)

theorem reads_child (child : PageId) :
    Reads (do let child ← Cursor.readU64 errors; return PageId.mk child) (le64 child.val) child :=
  Reads.map (reads_readU64 errors child.val) (Reads.pure child)

theorem reads_leaf {nextLeaf : Option PageId} {entries : List IndexEntry}
    {encoded : List (List UInt8)} (hlt : entries.length < 2 ^ 16)
    (h : entries.mapM encodeEntry = .ok encoded) :
    Reads decodeLeaf (encodeNextLeaf nextLeaf ++ (le16 (UInt16.ofNat entries.length) ++
      encoded.flatten)) (.leaf nextLeaf entries) := by
  have hall : List.Forall₂ (fun entry bs => Reads decodeEntry bs entry) entries encoded :=
    (except_mapM_eq_ok.1 h).imp fun _ _ => reads_decodeEntry
  refine Reads.bind (reads_decodeNextLeaf nextLeaf) ?_
  refine Reads.bind (reads_readU16 errors _) ?_
  rw [toNat_u16Len hlt]
  exact Reads.map (Reads.readMany hall) (Reads.pure _)

theorem reads_internal {keys : List IndexKey} {children : List PageId}
    {encoded : List (List UInt8)} (hshape : validateInternalShape keys children = .ok ())
    (hkeys : keys.length < 2 ^ 16) (hchildren : children.length < 2 ^ 16)
    (h : keys.mapM encodeKey = .ok encoded) :
    Reads decodeInternal (le16 (UInt16.ofNat keys.length) ++ (encoded.flatten ++
      (le16 (UInt16.ofNat children.length) ++ (children.map fun child => le64 child.val).flatten)))
      (.internal keys children) := by
  have hall : List.Forall₂ (fun key bs => Reads decodeKey bs key) keys encoded :=
    (except_mapM_eq_ok.1 h).imp fun _ _ => reads_decodeKey
  have hchild : List.Forall₂ (fun child bs =>
      Reads (do let child ← Cursor.readU64 errors; return PageId.mk child) bs child)
      children (children.map fun child => le64 child.val) := by
    rw [List.forall₂_map_right_iff, List.forall₂_same]
    exact fun child _ => reads_child child
  refine Reads.bind (reads_readU16 errors _) ?_
  rw [toNat_u16Len hkeys]
  refine Reads.bind (Reads.readMany hall) ?_
  refine Reads.bind (reads_readU16 errors _) ?_
  rw [toNat_u16Len hchildren]
  refine Reads.map (Reads.readMany hchild) ?_
  exact Reads.lift_bind hshape (Reads.pure _)

/-- The encoding of a node is its magic and version followed by a body. -/
theorem encodeNode_eq {node : BTreeNode} {bs : List UInt8} (h : encodeNode node = .ok bs) :
    ∃ body, bs = nodeMagic ++ (le16 nodeVersion ++ body) ∧ Reads decodeBody body node := by
  cases node with
  | leaf nextLeaf entries =>
      obtain ⟨count, hcount, h⟩ := except_bind_eq_ok.1 h
      obtain ⟨encoded, hencoded, h⟩ := except_bind_eq_ok.1 h
      obtain ⟨hlt, rfl⟩ := writeU16Len_eq_ok.1 hcount
      cases h
      refine ⟨_, rfl, ?_⟩
      refine Reads.bind (reads_readU8 errors nodeLeaf) ?_
      rw [if_pos rfl]
      exact reads_leaf hlt hencoded
  | internal keys children =>
      obtain ⟨⟨⟩, hshape, h⟩ := except_bind_eq_ok.1 h
      obtain ⟨keyCount, hkeyCount, h⟩ := except_bind_eq_ok.1 h
      obtain ⟨encoded, hencoded, h⟩ := except_bind_eq_ok.1 h
      obtain ⟨childCount, hchildCount, h⟩ := except_bind_eq_ok.1 h
      obtain ⟨hkeys, rfl⟩ := writeU16Len_eq_ok.1 hkeyCount
      obtain ⟨hchildren, rfl⟩ := writeU16Len_eq_ok.1 hchildCount
      cases h
      refine ⟨_, rfl, ?_⟩
      refine Reads.bind (reads_readU8 errors nodeInternal) ?_
      rw [if_neg (by decide), if_pos rfl]
      exact reads_internal hshape hkeys hchildren hencoded

theorem decodeNode_of_encodeNode {node : BTreeNode} {bs : List UInt8}
    (h : encodeNode node = .ok bs) (hlt : bs.length < 2 ^ 64) : decodeNode bs = .ok node := by
  obtain ⟨body, rfl, hbody⟩ := encodeNode_eq h
  refine Reads.run_finish errors ?_ hlt
  refine Reads.bind (reads_readBytes errors nodeMagic) ?_
  refine Reads.lift_bind (failIf_of_not (not_not.2 rfl)) ?_
  refine Reads.bind (reads_readU16 errors nodeVersion) ?_
  exact Reads.lift_bind (failIf_of_not (not_not.2 rfl)) hbody

/-- The page of a node: its header parses with the page id, and the node reads back. -/
structure NodePage (page : Page) (pageId : PageId) (node : BTreeNode) : Prop where
  valid : ∃ h, page.Valid h ∧ h.pageId = pageId ∧ h.pageType = .index
  node : nodeFromPage page = .ok node

theorem nodePage_of_single {page : Page} {pageId : PageId} {node : BTreeNode} {bs : List UInt8}
    (h : page.Single pageId .index bs) (hbs : encodeNode node = .ok bs) :
    NodePage page pageId node := by
  obtain ⟨header, hvalid, hid, htype⟩ := h.valid
  have hlen := Page.length_le_of_readRecord h.readRecord
  refine ⟨⟨header, hvalid, hid, htype⟩, ?_⟩
  rw [nodeFromPage, (Page.header_eq_ok_iff page header).2 hvalid.toShape]
  simp only [bind, Except.bind]
  rw [failIf_of_not (not_not.2 htype)]
  simp only [h.readRecord, DbResult.okOr]
  exact decodeNode_of_encodeNode hbs (by simp only [pageSize] at hlen; omega)

theorem nodeToPage_of_fits (pageId : PageId) {node : BTreeNode} {bs : List UInt8}
    (h : encodeNode node = .ok bs) (hfit : bs.length ≤ Page.maxRecord) :
    ∃ page, nodeToPage pageId node = .ok page := by
  obtain ⟨q, hq, -⟩ := Page.insertRecord_new_of_fits pageId .index hfit
  refine ⟨q, except_bind_eq_ok.2 ⟨bs, h, ?_⟩⟩
  rw [Exec.toExcept, hq]
  rfl

/-- Putting a node into a page fails with a user error or gives the page of the node. -/
theorem nodeToPage_eq_ok {pageId : PageId} {node : BTreeNode} {page : Page}
    (h : nodeToPage pageId node = .ok page) : NodePage page pageId node := by
  obtain ⟨bs, hbs, h⟩ := except_bind_eq_ok.1 h
  rcases Page.insertRecord_new pageId .index bs with ⟨message, hfail⟩ | ⟨q, hok, hsingle⟩
  · rw [Exec.toExcept, hfail] at h
    cases h
  · rw [Exec.toExcept, hok] at h
    cases h
    exact nodePage_of_single hsingle hbs

theorem length_encodeNextLeaf (next : Option PageId) : (encodeNextLeaf next).length = 9 := by
  cases next with
  | none => simp [encodeNextLeaf]
  | some pageId => simp [encodeNextLeaf]

theorem length_children (children : List PageId) :
    (children.map fun child => le64 child.val).flatten.length = children.length * 8 := by
  induction children with
  | nil => rfl
  | cons child children ih =>
      rw [List.map_cons, List.flatten_cons, List.length_append, ih, length_le64, List.length_cons]
      omega

/-- A node goes into a page exactly when its encoding is small enough. -/
theorem nodeToPage_isOk {pageId : PageId} {node : BTreeNode} :
    (∃ page, nodeToPage pageId node = .ok page) ↔
      ∃ bs, encodeNode node = .ok bs ∧ bs.length ≤ Page.maxRecord := by
  constructor
  · rintro ⟨page, h⟩
    obtain ⟨bs, hbs, h⟩ := except_bind_eq_ok.1 h
    obtain ⟨⟨slotId, q⟩, hinsert, -⟩ := except_bind_eq_ok.1 h
    exact ⟨bs, hbs, Page.insertRecord_new_fits (Exec.toExcept_eq_ok.1 hinsert)⟩
  · rintro ⟨bs, hbs, hlen⟩
    exact nodeToPage_of_fits pageId hbs hlen

/-! ## Nodes that do not fit -/

theorem encodeKey_onlyUser (key : IndexKey) : DbResult.OnlyUser (encodeKey key) := by
  cases key with
  | integer value => exact DbResult.onlyUser_ok _
  | text value => exact (writeU16Len_onlyUser _ _).bind fun _ _ => DbResult.onlyUser_ok _

/-- A node has the right number of children. -/
def NodeShape : BTreeNode → Prop
  | .leaf _ _ => True
  | .internal keys children => children.length = keys.length + 1

theorem nodeShape_leaf (nextLeaf : Option PageId) (entries : List IndexEntry) :
    NodeShape (.leaf nextLeaf entries) := trivial

theorem nodeShape_internal {keys : List IndexKey} {children : List PageId}
    (h : children.length = keys.length + 1) : NodeShape (.internal keys children) := h

theorem validateInternalShape_of_length {keys : List IndexKey} {children : List PageId}
    (h : children.length = keys.length + 1) : validateInternalShape keys children = .ok () :=
  failIf_of_not (not_not.2 h)

theorem encodeNode_onlyUser {node : BTreeNode} (h : NodeShape node) :
    DbResult.OnlyUser (encodeNode node) := by
  cases node with
  | leaf nextLeaf entries =>
      refine (writeU16Len_onlyUser _ _).bind fun _ _ => ?_
      refine (DbResult.onlyUser_mapM fun entry _ => ?_).bind fun _ _ => DbResult.onlyUser_ok _
      exact (encodeKey_onlyUser _).bind fun _ _ => DbResult.onlyUser_ok _
  | internal keys children =>
      rw [encodeNode, validateInternalShape_of_length h]
      refine (DbResult.onlyUser_ok ()).bind fun _ _ => ?_
      refine (writeU16Len_onlyUser _ _).bind fun _ _ => ?_
      refine (DbResult.onlyUser_mapM fun key _ => encodeKey_onlyUser key).bind fun _ _ => ?_
      exact (writeU16Len_onlyUser _ _).bind fun _ _ => DbResult.onlyUser_ok _

/-- Putting a node into a page fails only because it is too large. -/
theorem nodeToPage_onlyUser (pageId : PageId) {node : BTreeNode} (h : NodeShape node) :
    DbResult.OnlyUser (nodeToPage pageId node) := by
  refine (encodeNode_onlyUser h).bind fun bytes _ => ?_
  exact (Page.insertRecord_new_onlyUser _ _ _).bind fun _ _ => DbResult.onlyUser_ok _

end Rdbms
