import Rdbms.Catalog.Calls

/-!
# The tables of a layout

`ledger` lists the rows of all tables of a layout, each with the id of its table, and
`postings` lists the entries of all indexes. No two rows have the same row id, and the
pages of a table hold rows of that table only.
-/

namespace Rdbms

open Library

/-- The rows that the pages hold. -/
def Holding.rows (holding : Holding) : List HeapRow :=
  match holding.contents with
  | .heap rows => rows
  | .tree _ => []

/-- The index entries that the pages hold. -/
def Holding.entries (holding : Holding) : List IndexEntry :=
  match holding.contents with
  | .heap _ => []
  | .tree entries => entries

/-! ## What all holdings contain -/

section Collect

variable {α : Type} {items : Holding → List α}

/-- What all relations hold, each item with the id of its relation. -/
def collect (items : Holding → List α) (relations : List RelationInfo) (held : List Holding) :
    List (RelationId × α) := (relations.zip held).flatMap fun x => (items x.2).map (Prod.mk x.1.id)

/-- The items of one relation in a list of items. -/
def itemsOf (relationId : RelationId) (xs : List (RelationId × α)) : List α :=
  (xs.filter fun x => x.1 = relationId).map Prod.snd

theorem collect_append {front back : List RelationInfo} {before after : List Holding}
    (h : front.length = before.length) :
    collect items (front ++ back) (before ++ after) =
      collect items front before ++ collect items back after := by
  rw [collect, List.zip_append h, List.flatMap_append, collect, collect]

theorem collect_cons (relation : RelationInfo) (relations : List RelationInfo) (holding : Holding)
    (held : List Holding) :
    collect items (relation :: relations) (holding :: held) =
      (items holding).map (Prod.mk relation.id) ++ collect items relations held := by
  rw [collect, List.zip_cons_cons, List.flatMap_cons, collect]

/-- A relation that holds nothing has been added. -/
theorem collect_create {relations : List RelationInfo} {held : List Holding}
    (h : relations.length = held.length) (relation : RelationInfo) {holding : Holding}
    (hitems : items holding = []) :
    collect items (relations ++ [relation]) (held ++ [holding]) = collect items relations held := by
  rw [collect_append h, collect_cons, hitems]
  simp [collect]

theorem mem_collect {relations : List RelationInfo} {held : List Holding} {x : RelationId × α} :
    x ∈ collect items relations held ↔
      ∃ relation holding, (relation, holding) ∈ relations.zip held ∧ relation.id = x.1 ∧
        x.2 ∈ items holding := by
  rw [collect, List.mem_flatMap]
  constructor
  · rintro ⟨⟨relation, holding⟩, hmem, hx⟩
    obtain ⟨item, hitem, rfl⟩ := List.mem_map.1 hx
    exact ⟨relation, holding, hmem, rfl, hitem⟩
  · rintro ⟨relation, holding, hmem, hid, hitem⟩
    refine ⟨(relation, holding), hmem, List.mem_map.2 ⟨x.2, hitem, ?_⟩⟩
    rw [hid]

theorem itemsOf_perm {relationId : RelationId} {xs ys : List (RelationId × α)} (h : xs.Perm ys) :
    (itemsOf relationId xs).Perm (itemsOf relationId ys) := (h.filter _).map _

theorem itemsOf_append (relationId : RelationId) (xs ys : List (RelationId × α)) :
    itemsOf relationId (xs ++ ys) = itemsOf relationId xs ++ itemsOf relationId ys := by
  rw [itemsOf, List.filter_append, List.map_append, itemsOf, itemsOf]

theorem itemsOf_eq_nil {relationId : RelationId} {xs : List (RelationId × α)}
    (h : ∀ x ∈ xs, x.1 ≠ relationId) : itemsOf relationId xs = [] := by
  rw [itemsOf, List.filter_eq_nil_iff.2, List.map_nil]
  intro x hx
  rw [decide_eq_true_eq]
  exact h x hx

theorem itemsOf_map (relationId : RelationId) (xs : List α) :
    itemsOf relationId (xs.map (Prod.mk relationId)) = xs := by
  rw [itemsOf, List.filter_eq_self.2, List.map_map]
  · exact List.map_id xs
  · intro x hx
    obtain ⟨item, -, rfl⟩ := List.mem_map.1 hx
    exact decide_eq_true rfl

theorem mem_itemsOf {relationId : RelationId} {xs : List (RelationId × α)} {item : α} :
    item ∈ itemsOf relationId xs ↔ (relationId, item) ∈ xs := by
  simp [itemsOf]

/-- The items of one relation among those of all relations. -/
theorem itemsOf_collect {relationId : RelationId} {front back : List RelationInfo}
    {relation : RelationInfo} {before after : List Holding} {holding : Holding}
    (hlength : front.length = before.length) (hid : relation.id = relationId)
    (hother : ∀ r ∈ front ++ back, r.id ≠ relationId) :
    itemsOf relationId (collect items (front ++ relation :: back) (before ++ holding :: after)) =
      items holding := by
  have hnone : ∀ {relations : List RelationInfo} {held : List Holding},
      (∀ r ∈ relations, r.id ≠ relationId) → itemsOf relationId (collect items relations held) = [] := by
    intro relations held h
    refine itemsOf_eq_nil fun x hx => ?_
    obtain ⟨relation, holding, hmem, hid, -⟩ := mem_collect.1 hx
    rw [← hid]
    exact h relation (List.of_mem_zip hmem).1
  rw [collect_append hlength, collect_cons, itemsOf_append, itemsOf_append, hid, itemsOf_map,
    hnone fun r hr => hother r (List.mem_append_left _ hr),
    hnone fun r hr => hother r (List.mem_append_right _ hr), List.nil_append, List.append_nil]

end Collect

/-- The rows of all tables, each with the id of its table. -/
def ledger (relations : List RelationInfo) (held : List Holding) : List (RelationId × HeapRow) :=
  collect Holding.rows relations held

/-- The entries of all indexes, each with the id of its index. -/
def postings (relations : List RelationInfo) (held : List Holding) :
    List (RelationId × IndexEntry) := collect Holding.entries relations held

/-! ## Tables of a layout -/

section Layout

variable {pages : PageId → Option Page} {c : Catalog} {held : List Holding}

/-- A table of the catalog, its pages and its rows. -/
structure TableAt (pages : PageId → Option Page) (c : Catalog) (held : List Holding)
    (relationId : RelationId) (pageIds : List PageId) (rows : List HeapRow) : Prop where
  ensured : c.ensureHeapRelation relationId = .ok ()
  heapPages : c.heapPages relationId = .ok pageIds
  heap : HeapAt pages pageIds rows
  nodup : pageIds.Nodup
  rows_eq : itemsOf relationId (ledger c.relations held) = rows

/-- A relation of the catalog and what it holds. -/
structure HoldingAt (pages : PageId → Option Page) (c : Catalog) (held : List Holding)
    (relation : RelationInfo) (holding : Holding) : Prop where
  found : c.relationById relation.id = some relation
  occupies : Occupies pages relation holding
  nodup : holding.pageIds.Nodup
  allocated : ∀ i ∈ holding.pageIds, c.Allocated i
  items : ∀ {α : Type} (items : Holding → List α),
    itemsOf relation.id (collect items c.relations held) = items holding

theorem Layout.holdingAt (h : Layout pages c held) {relation : RelationInfo}
    (hmem : relation ∈ c.relations) : ∃ holding, HoldingAt pages c held relation holding := by
  obtain ⟨front, back, hsplit⟩ := List.append_of_mem hmem
  have hids := h.relationIds
  rw [hsplit, List.map_append, List.map_cons, List.nodup_middle, List.nodup_cons] at hids
  have hother : ∀ r ∈ front ++ back, r.id ≠ relation.id := by
    intro r hr heq
    refine hids.1 ?_
    rw [← List.map_append, ← heq]
    exact List.mem_map_of_mem hr
  have hfront : ∀ r ∈ front, (r.id == relation.id) = false := by
    intro r hr
    simpa using hother r (List.mem_append_left _ hr)
  have hall := h.occupies
  rw [hsplit] at hall
  obtain ⟨before, holding, after, rfl, hbefore, hone, -⟩ := forall₂_split hall
  have hnodup := h.nodup
  have halloc := h.allocated
  rw [occupied_append, occupied_cons] at hnodup halloc
  refine ⟨holding, Catalog.relationById_of_split hsplit rfl hfront, hone, ?_, ?_, ?_⟩
  · exact (List.nodup_append.1 (List.nodup_append.1 (List.nodup_cons.1 hnodup).2).2.1).1
  · intro i hi
    exact halloc i (List.mem_cons_of_mem _ (List.mem_append_right _ (List.mem_append_left _ hi)))
  · intro α items
    rw [hsplit, itemsOf_collect hbefore.length_eq rfl hother]

theorem Layout.table (h : Layout pages c held) {relation : RelationInfo}
    (hmem : relation ∈ c.relations) (hkind : relation.kind = .table) :
    ∃ pageIds rows, TableAt pages c held relation.id pageIds rows := by
  obtain ⟨holding, hfound, hoccupies, hnodup, -, hitems⟩ := h.holdingAt hmem
  cases hoccupies with
  | index tree => cases hkind
  | @table id name columns pageIds rows hne heap =>
      exact ⟨pageIds, rows, Catalog.ensureHeapRelation_of_table hfound hkind,
        Catalog.heapPages_of_relation hfound, heap, hnodup, hitems Holding.rows⟩

/-- An index of the catalog, its pages and its entries. -/
theorem Layout.index (h : Layout pages c held) {relation : RelationInfo}
    (hmem : relation ∈ c.relations) {storage : IndexStorage}
    (hstorage : relation.indexStorage = some storage) :
    ∃ ids, c.indexRoot relation.id = .ok storage.rootPageId ∧
      TreeIn pages storage.rootPageId (itemsOf relation.id (postings c.relations held)) ids ∧
      ids.Nodup ∧ ∀ i ∈ ids, c.Allocated i := by
  obtain ⟨holding, hfound, hoccupies, hnodup, halloc, hitems⟩ := h.holdingAt hmem
  have hroot : c.indexRoot relation.id = .ok storage.rootPageId := by
    rw [Catalog.indexRoot, hfound, Option.bind_some, hstorage]
    rfl
  cases hoccupies with
  | table hne heap => cases hstorage
  | @index id name columns storage' pageIds entries tree =>
      cases hstorage
      refine ⟨pageIds, hroot, ?_, hnodup, halloc⟩
      rw [postings, hitems Holding.entries]
      exact tree

/-- An entry of the ledger is a row of one of the tables. -/
theorem Layout.entry (h : Layout pages c held) {entry : RelationId × HeapRow}
    (hentry : entry ∈ ledger c.relations held) : ∃ relation ∈ c.relations, relation.kind = .table ∧
      relation.id = entry.1 := by
  obtain ⟨relation, holding, hmem, hid, hrow⟩ := mem_collect.1 hentry
  refine ⟨relation, (List.of_mem_zip hmem).1, ?_, hid⟩
  cases List.forall₂_zip h.occupies hmem with
  | table hne heap => rfl
  | index tree => cases hrow

theorem Occupies.mem_pageIds {relation : RelationInfo} {holding : Holding}
    (h : Occupies pages relation holding) {row : HeapRow} (hrow : row ∈ holding.rows) :
    row.rowId.pageId ∈ holding.pageIds := by
  cases h with
  | table hne heap => exact heap.mem_pageIds hrow
  | index tree => cases hrow

theorem Occupies.nodup_rows {relation : RelationInfo} {holding : Holding}
    (h : Occupies pages relation holding) (hids : holding.pageIds.Nodup) :
    (holding.rows.map HeapRow.rowId).Nodup := by
  cases h with
  | table hne heap => exact heap.nodup hids
  | index tree => exact List.nodup_nil

/-- No two rows have the same id, in whichever tables they are. -/
theorem nodup_ledger {relations : List RelationInfo}
    (h : List.Forall₂ (Occupies pages) relations held) (hids : (occupied held).Nodup) :
    ((ledger relations held).map fun entry => entry.2.rowId).Nodup := by
  induction h with
  | nil => exact List.nodup_nil
  | @cons relation holding relations held hone hrest ih =>
      rw [occupied_cons] at hids
      obtain ⟨hholding, hheld, hdisjoint⟩ := List.nodup_append.1 hids
      rw [ledger, collect_cons, List.map_append, List.map_map]
      refine List.nodup_append.2 ⟨hone.nodup_rows hholding, ih hheld, ?_⟩
      intro a ha b hb hab
      obtain ⟨row, hrow, rfl⟩ := List.mem_map.1 ha
      obtain ⟨entry, hentry, rfl⟩ := List.mem_map.1 hb
      obtain ⟨relation', holding', hmem, -, hrow'⟩ := mem_collect.1 hentry
      have hpage := hone.mem_pageIds hrow
      have hpage' := (List.forall₂_zip hrest hmem).mem_pageIds hrow'
      refine hdisjoint _ hpage _ (List.mem_flatMap.2 ⟨holding', (List.of_mem_zip hmem).2, hpage'⟩) ?_
      exact congrArg RowId.pageId hab

end Layout

end Rdbms
