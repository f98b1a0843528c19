import Rdbms.Tx.Careful

/-!
# Who owns a page

The catalog owns page 0, a table the pages on its list, and an index the pages that
are reached from its root through children and next leaves. For a careful caller no
page of the data file has two owners, every page that is owned has been handed out,
and its header names its own id and the type that its owner expects.
-/

namespace Rdbms

open Library Disk BPlusTree

/-- The pages that belong to a relation of the catalog. -/
def OwnedBy (stored : PageId → Option Page) (relation : RelationInfo) (pageId : PageId) : Prop :=
  match relation.storage with
  | .heap pageIds => pageId ∈ pageIds
  | .bPlusTree storage => Linked (nodeView stored) storage.rootPageId pageId

/-- The list of the pages that belong to a relation. The list of a table is the one in
the catalog; on the list of an index the root comes once, and every other page as often
as it is somebody's child. -/
structure Owns (stored : PageId → Option Page) (relation : RelationInfo) (pageIds : List PageId) :
    Prop where
  mem_iff : ∀ i, i ∈ pageIds ↔ OwnedBy stored relation i
  heap : ∀ ids, relation.storage = .heap ids → pageIds = ids
  tree : ∀ storage, relation.storage = .bPlusTree storage →
    (storage.rootPageId :: pageIds.flatMap (childrenAt (nodeView stored))).Perm pageIds

/-- The page in the data file names its own id and has the type. -/
def HasType (stored : PageId → Option Page) (pageId : PageId) (pageType : PageType) : Prop :=
  ∃ page header, stored pageId = some page ∧ page.header = .ok header ∧ header.pageId = pageId ∧
    header.pageType = pageType

/-- The type of the pages of a relation. -/
def RelationInfo.pageType (relation : RelationInfo) : PageType :=
  match relation.storage with
  | .heap _ => .heap
  | .bPlusTree _ => .index

/-- No page has two owners. -/
structure Exclusive (stored : PageId → Option Page) (c : Catalog) : Prop where
  owned : ∃ owned : List (List PageId), List.Forall₂ (Owns stored) c.relations owned ∧
    (catalogPageId :: owned.flatten).Nodup
  allocated : ∀ relation ∈ c.relations, ∀ i, OwnedBy stored relation i → c.Allocated i
  typed : ∀ relation ∈ c.relations, ∀ i, OwnedBy stored relation i →
    HasType stored i relation.pageType
  catalog : c.Allocated catalogPageId ∧ HasType stored catalogPageId .catalog

section Layout

variable {stored : PageId → Option Page} {c : Catalog} {held : List Holding}

theorem TreeIn.owns {root : PageId} {entries : List IndexEntry} {ids : List PageId}
    (h : TreeIn stored root entries ids) :
    (∀ i, i ∈ ids ↔ Linked (nodeView stored) root i) ∧
      (root :: ids.flatMap (childrenAt (nodeView stored))).Perm ids := by
  obtain ⟨height, leaves, htree, hchain, -⟩ := h
  exact ⟨fun i => (htree.linked_iff hchain).symm, htree.parents_perm⟩

theorem Occupies.owns {relation : RelationInfo} {holding : Holding}
    (h : Occupies stored relation holding) : Owns stored relation holding.pageIds := by
  cases h with
  | table hne heap =>
      refine ⟨fun i => Iff.rfl, ?_, nofun⟩
      rintro ids ⟨⟩
      rfl
  | index tree =>
      refine ⟨fun i => tree.owns.1 i, nofun, ?_⟩
      rintro storage ⟨⟩
      exact tree.owns.2

theorem hasType_of_node {pageId : PageId} (hstored : ∀ {i page}, stored i = some page → page.ValidAs i)
    {node : BTreeNode} (h : nodeView stored pageId = some node) : HasType stored pageId .index := by
  obtain ⟨page, hpage, hnode⟩ := Option.bind_eq_some_iff.1 h
  obtain ⟨header', hvalid, hid⟩ := hstored hpage
  rcases hdecode : nodeFromPage page with stop | node'
  · rw [hdecode] at hnode
    cases hnode
  · obtain ⟨header, hheader, hrest⟩ := except_bind_eq_ok.1 hdecode
    obtain ⟨⟨⟩, htype, -⟩ := except_bind_eq_ok.1 hrest
    have hsame := hvalid.toShape.unique ((Page.header_eq_ok_iff _ _).1 hheader)
    refine ⟨page, header, hpage, hheader, ?_, not_not.1 (failIf_eq_ok.1 htype)⟩
    rw [← hsame]
    exact hid

theorem Occupies.hasType {relation : RelationInfo} {holding : Holding}
    (hstored : ∀ {i page}, stored i = some page → page.ValidAs i)
    (h : Occupies stored relation holding) {i : PageId} (hi : i ∈ holding.pageIds) :
    HasType stored i relation.pageType := by
  cases h with
  | table hne heap =>
      obtain ⟨page, rows, hpage, header, hvalid, hid, htype, -⟩ := heap.page hi
      exact ⟨page, header, hpage, (Page.header_eq_ok_iff page header).2 hvalid.toShape, hid, htype⟩
  | index tree =>
      obtain ⟨height, leaves, htree, -, -⟩ := tree
      rcases htree.node i hi with ⟨leaf, -, -, hnode⟩ | ⟨keys, children, hnode, -⟩
      · exact hasType_of_node hstored hnode
      · exact hasType_of_node hstored hnode

end Layout

theorem Committed.exclusive {records : List WalRecord} {store : TransactionalStore FileId} {d : Disk}
    {held : List Holding} (h : Committed records store d held) :
    Exclusive d.storedPage store.store.catalog := by
  have hstored : ∀ {i page}, d.storedPage i = some page → page.ValidAs i :=
    fun hpage => (storedPage_eq_some.1 hpage).2
  have hoccupies : List.Forall₂ (Occupies d.storedPage) store.store.catalog.relations held :=
    forall₂_occupies_mono h.layout.occupies fun i _ page hpage => (Catalog.only_eq_some.1 hpage).2
  -- A page that a relation owns is one of those it occupies.
  have hmem : ∀ relation ∈ store.store.catalog.relations, ∀ i, OwnedBy d.storedPage relation i →
      ∃ holding ∈ held, Occupies d.storedPage relation holding ∧ i ∈ holding.pageIds := by
    intro relation hrelation i hi
    obtain ⟨holding, hholding, hone⟩ := forall₂_mem_right hoccupies.flip hrelation
    exact ⟨holding, hholding, hone, (hone.owns.mem_iff i).2 hi⟩
  refine ⟨⟨held.map Holding.pageIds, ?_, ?_⟩, ?_, ?_, ?_, ?_⟩
  · rw [List.forall₂_map_right_iff]
    exact hoccupies.imp fun relation holding hone => hone.owns
  · exact h.layout.nodup
  · intro relation hrelation i hi
    obtain ⟨holding, hholding, -, hpage⟩ := hmem relation hrelation i hi
    exact h.layout.allocated i (List.mem_cons_of_mem _ (List.mem_flatMap.2 ⟨holding, hholding, hpage⟩))
  · intro relation hrelation i hi
    obtain ⟨holding, -, hone, hpage⟩ := hmem relation hrelation i hi
    exact hone.hasType hstored hpage
  · exact h.layout.allocated _ List.mem_cons_self
  · obtain ⟨page, hpage, htoPage⟩ := h.saved
    obtain ⟨bytes, -, hsingle⟩ := Catalog.toPage_eq_ok htoPage
    obtain ⟨header, hvalid, hid, htype⟩ := hsingle.valid
    exact ⟨page, header, hpage, (Page.header_eq_ok_iff page header).2 hvalid.toShape, hid, htype⟩

/-- For a careful caller no page of the data file has two owners. -/
theorem page_ownership_exclusive {s : Session × Disk} {b : Book} (h : Careful s b) :
    Exclusive s.2.storedPage s.1.handle.store.catalog := by
  obtain ⟨records, held, hcommitted, -⟩ := h.sound.committed
  exact hcommitted.exclusive

/-- After one row and its index entry have been committed. -/
theorem page_ownership_one_table : ∃ store d,
    Careful (.idle store, d) ⟨[(⟨1⟩, ⟨⟨⟨1⟩, ⟨0⟩⟩, [7]⟩)], [], false⟩ ∧
    store.store.catalog = indexedTable ∧ Exclusive d.storedPage store.store.catalog := by
  obtain ⟨-, -, store, d, -, -, h, hcatalog⟩ := careful_indexed_row
  exact ⟨store, d, h, hcatalog, page_ownership_exclusive h⟩

end Rdbms
