import Rdbms.Catalog.Rows
import Rdbms.Index.Tree

/-!
# How relations share the pages

Every relation of the catalog occupies pages of its own: a table the pages of its
heap, an index the pages of its tree. `Layout` says that no page belongs to two
relations or to a relation and the catalog itself, that every page in use has been
handed out by the catalog, and what each relation holds. One rule covers a relation
that is added, and one covers a relation whose pages have changed.
-/

namespace Rdbms

open Library BPlusTree

namespace Catalog

/-- The page id has been handed out. -/
def Allocated (c : Catalog) (pageId : PageId) : Prop := pageId.val.toNat < c.nextPageId.toNat

instance (c : Catalog) (pageId : PageId) : Decidable (c.Allocated pageId) :=
  inferInstanceAs (Decidable (_ < _))

/-- Handing out a page id changes nothing but the counter. -/
theorem allocatePageId_eq_ok {c c' : Catalog} {pageId : PageId}
    (h : allocatePageId c = (.ok pageId, c')) :
    pageId = ⟨c.nextPageId⟩ ∧ c' = { c with nextPageId := c.nextPageId + 1 } ∧
      c'.nextPageId.toNat = c.nextPageId.toNat + 1 := by
  by_cases hfull : c.nextPageId.toNat + 1 ≥ 2 ^ 64
  · simp only [allocatePageId, Exec.bind_apply, Exec.get_apply, Exec.liftM_apply,
      failIf_of hfull] at h
    cases h
  · simp only [allocatePageId, Exec.bind_apply, Exec.get_apply, Exec.liftM_apply,
      failIf_of_not hfull, Exec.modify_apply, Exec.pure_apply] at h
    cases h
    refine ⟨rfl, rfl, ?_⟩
    rw [UInt64.toNat_add, UInt64.toNat_one]
    omega

/-- No more pages are in use than have been handed out. -/
theorem length_le_of_allocated {c : Catalog} {pageIds : List PageId} (hids : pageIds.Nodup)
    (h : ∀ i ∈ pageIds, c.Allocated i) : pageIds.length ≤ c.nextPageId.toNat := by
  have hinjective : Function.Injective fun i : PageId => i.val.toNat := by
    rintro ⟨i⟩ ⟨j⟩ hij
    exact congrArg PageId.mk (UInt64.toNat_inj.1 hij)
  have hsubset : pageIds.map (fun i => i.val.toNat) ⊆ List.range c.nextPageId.toNat := by
    intro n hn
    obtain ⟨i, hi, rfl⟩ := List.mem_map.1 hn
    exact List.mem_range.2 (h i hi)
  have hle := (List.subperm_of_subset (hids.map hinjective) hsubset).length_le
  rwa [List.length_map, List.length_range] at hle

end Catalog

/-- The pages of a view that have been handed out. -/
def Catalog.only (c : Catalog) (pages : PageId → Option Page) (pageId : PageId) : Option Page :=
  if c.Allocated pageId then pages pageId else none

theorem Catalog.only_eq_some {c : Catalog} {pages : PageId → Option Page} {pageId : PageId}
    {page : Page} : c.only pages pageId = some page ↔ c.Allocated pageId ∧ pages pageId = some page := by
  rw [only]
  split
  · rename_i h
    simp [h]
  · rename_i h
    simp [h]

/-! ## Relations and their pages -/

/-- The node stored under a page id of a view. -/
def nodeView (pages : PageId → Option Page) (pageId : PageId) : Option BTreeNode :=
  (pages pageId).bind fun page => (nodeFromPage page).toOption

/-- The tree below `root` holds `entries`, from left to right, in the pages `ids`. -/
def TreeIn (pages : PageId → Option Page) (root : PageId) (entries : List IndexEntry)
    (ids : List PageId) : Prop :=
  ∃ height leaves, Subtree IndexEntry.key indexFanout (nodeView pages) (min height 1) height ⊥ ⊤
    root leaves ids ∧ Chained leaves none ∧ entriesOf leaves = entries

/-- What the pages of a relation hold. -/
inductive Contents where
  | heap (rows : List HeapRow)
  | tree (entries : List IndexEntry)

/-- The pages of a relation and what they hold. -/
structure Holding where
  pageIds : List PageId
  contents : Contents

/-- The relation occupies the pages. -/
inductive Occupies (pages : PageId → Option Page) : RelationInfo → Holding → Prop
  | table {id : RelationId} {name : String} {columns : List ColumnDef} {pageIds : List PageId}
      {rows : List HeapRow} (nonempty : pageIds ≠ []) (heap : HeapAt pages pageIds rows) :
      Occupies pages ⟨id, name, .table, .heap pageIds, columns⟩ ⟨pageIds, .heap rows⟩
  | index {id : RelationId} {name : String} {columns : List ColumnDef} {storage : IndexStorage}
      {pageIds : List PageId} {entries : List IndexEntry}
      (tree : TreeIn pages storage.rootPageId entries pageIds) :
      Occupies pages ⟨id, name, .index, .bPlusTree storage, columns⟩ ⟨pageIds, .tree entries⟩

/-- The pages of all relations. -/
def occupied (held : List Holding) : List PageId := held.flatMap Holding.pageIds

/-- The relations of the catalog occupy different pages. -/
structure Layout (pages : PageId → Option Page) (c : Catalog) (held : List Holding) : Prop where
  occupies : List.Forall₂ (Occupies pages) c.relations held
  nodup : (catalogPageId :: occupied held).Nodup
  allocated : ∀ i ∈ catalogPageId :: occupied held, c.Allocated i
  relationIds : (c.relations.map RelationInfo.id).Nodup
  relationBelow : ∀ r ∈ c.relations, r.id.val.toNat < c.nextRelationId.toNat
  names : (c.relations.map RelationInfo.name).Nodup

theorem layout_empty (pages : PageId → Option Page) : Layout pages Catalog.empty [] where
  occupies := List.Forall₂.nil
  nodup := by simp [occupied]
  allocated := by
    intro i hi
    rw [show i = catalogPageId by simpa [occupied] using hi]
    decide
  relationIds := List.nodup_nil
  relationBelow := nofun
  names := List.nodup_nil

section Mono

variable {pages pages' : PageId → Option Page}

theorem TreeIn.mono {root : PageId} {entries : List IndexEntry} {ids : List PageId}
    (h : TreeIn pages root entries ids)
    (hpages : ∀ i ∈ ids, ∀ page, pages i = some page → pages' i = some page) :
    TreeIn pages' root entries ids := by
  obtain ⟨height, leaves, htree, hchain, hentries⟩ := h
  refine ⟨height, leaves, Subtree.mono htree ?_, hchain, hentries⟩
  intro i hi node hnode
  obtain ⟨page, hpage, hdecode⟩ := Option.bind_eq_some_iff.1 hnode
  exact Option.bind_eq_some_iff.2 ⟨page, hpages i hi page hpage, hdecode⟩

theorem Occupies.mono {relation : RelationInfo} {holding : Holding}
    (h : Occupies pages relation holding)
    (hpages : ∀ i ∈ holding.pageIds, ∀ page, pages i = some page → pages' i = some page) :
    Occupies pages' relation holding := by
  cases h with
  | table nonempty heap => exact .table nonempty (heap.mono hpages)
  | index tree => exact .index (tree.mono hpages)

end Mono

/-! ## Changing one relation -/

/-- A part of one list corresponds to a part of the other. -/
theorem forall₂_split {α β : Type} {R : α → β → Prop} {xs ys : List α} {x : α} {zs : List β}
    (h : List.Forall₂ R (xs ++ x :: ys) zs) :
    ∃ us u vs, zs = us ++ u :: vs ∧ List.Forall₂ R xs us ∧ R x u ∧ List.Forall₂ R ys vs := by
  induction xs generalizing zs with
  | nil =>
      obtain ⟨u, vs, hu, hvs, rfl⟩ := List.forall₂_cons_left_iff.1 h
      exact ⟨[], u, vs, rfl, List.Forall₂.nil, hu, hvs⟩
  | cons y xs ih =>
      obtain ⟨w, ws, hw, hws, rfl⟩ := List.forall₂_cons_left_iff.1 h
      obtain ⟨us, u, vs, rfl, hus, hu, hvs⟩ := ih hws
      exact ⟨w :: us, u, vs, rfl, List.Forall₂.cons hw hus, hu, hvs⟩

theorem occupied_append (xs ys : List Holding) : occupied (xs ++ ys) = occupied xs ++ occupied ys :=
  List.flatMap_append

theorem occupied_cons (x : Holding) (xs : List Holding) :
    occupied (x :: xs) = x.pageIds ++ occupied xs := List.flatMap_cons

theorem occupied_singleton (x : Holding) : occupied [x] = x.pageIds := by simp [occupied]

theorem forall₂_occupies_mono {pages pages' : PageId → Option Page} {relations : List RelationInfo}
    {held : List Holding} (h : List.Forall₂ (Occupies pages) relations held)
    (hpages : ∀ i ∈ occupied held, ∀ page, pages i = some page → pages' i = some page) :
    List.Forall₂ (Occupies pages') relations held := by
  induction h with
  | nil => exact List.Forall₂.nil
  | cons hone _ ih =>
      rw [occupied_cons, List.forall_mem_append] at hpages
      exact List.Forall₂.cons (hone.mono hpages.1) (ih hpages.2)

section Rules

variable {pages pages' : PageId → Option Page} {c c' : Catalog} {held : List Holding}

/-- Nothing happens to the relations. -/
theorem Layout.mono (h : Layout pages c held) (hrelations : c'.relations = c.relations)
    (hnext : c'.nextRelationId = c.nextRelationId) (hgrow : ∀ i, c.Allocated i → c'.Allocated i)
    (hpages : ∀ i, c.Allocated i → i ∈ occupied held → ∀ page, pages i = some page →
      pages' i = some page) : Layout pages' c' held where
  occupies := by
    rw [hrelations]
    refine forall₂_occupies_mono h.occupies ?_
    intro i hi
    exact hpages i (h.allocated i (List.mem_cons_of_mem _ hi)) hi
  nodup := h.nodup
  allocated := fun i hi => hgrow i (h.allocated i hi)
  relationIds := by
    rw [hrelations]
    exact h.relationIds
  relationBelow := by
    rw [hrelations, hnext]
    exact h.relationBelow
  names := by
    rw [hrelations]
    exact h.names

/-- A relation is added, in pages that have just been handed out. -/
theorem Layout.add (h : Layout pages c held) {relation : RelationInfo} {holding : Holding}
    (hrelations : c'.relations = c.relations ++ [relation])
    (hid : relation.id.val.toNat = c.nextRelationId.toNat)
    (hnext : c'.nextRelationId.toNat = c.nextRelationId.toNat + 1)
    (hname : ∀ r ∈ c.relations, r.name ≠ relation.name)
    (hoccupies : Occupies pages' relation holding) (hids : holding.pageIds.Nodup)
    (hfresh : ∀ i ∈ holding.pageIds, ¬ c.Allocated i ∧ c'.Allocated i)
    (hgrow : ∀ i, c.Allocated i → c'.Allocated i)
    (hpages : ∀ i, c.Allocated i → i ∈ occupied held → ∀ page, pages i = some page →
      pages' i = some page) : Layout pages' c' (held ++ [holding]) where
  occupies := by
    rw [hrelations]
    refine List.rel_append ?_ (List.Forall₂.cons hoccupies List.Forall₂.nil)
    refine forall₂_occupies_mono h.occupies ?_
    intro i hi
    exact hpages i (h.allocated i (List.mem_cons_of_mem _ hi)) hi
  nodup := by
    rw [occupied_append, occupied_singleton, ← List.cons_append, List.nodup_append]
    refine ⟨h.nodup, hids, ?_⟩
    rintro i hi j hj rfl
    exact (hfresh i hj).1 (h.allocated i hi)
  allocated := by
    rw [occupied_append, occupied_singleton, ← List.cons_append, List.forall_mem_append]
    exact ⟨fun i hi => hgrow i (h.allocated i hi), fun i hi => (hfresh i hi).2⟩
  relationIds := by
    rw [hrelations, List.map_append, List.nodup_append]
    refine ⟨h.relationIds, List.nodup_singleton _, ?_⟩
    rintro _ hi _ hj rfl
    obtain ⟨r, hr, heq⟩ := List.mem_map.1 hi
    have hlt := h.relationBelow r hr
    rw [heq, List.mem_singleton.1 hj, hid] at hlt
    exact Nat.lt_irrefl _ hlt
  relationBelow := by
    rw [hrelations, List.forall_mem_append, hnext]
    refine ⟨fun r hr => Nat.lt_succ_of_lt (h.relationBelow r hr), ?_⟩
    intro r hr
    rw [List.mem_singleton.1 hr, hid]
    exact Nat.lt_succ_self _
  names := by
    rw [hrelations, List.map_append, List.nodup_append]
    refine ⟨h.names, List.nodup_singleton _, ?_⟩
    rintro _ hi _ hj rfl
    obtain ⟨r, hr, heq⟩ := List.mem_map.1 hi
    exact hname r hr (heq.trans (List.mem_singleton.1 hj))

/-- The pages of one relation change. The new ones were its own or have just been handed
out. -/
theorem Layout.replace {front back : List RelationInfo} {relation relation' : RelationInfo}
    {before after : List Holding} {holding holding' : Holding}
    (h : Layout pages c (before ++ holding :: after))
    (hlength : front.length = before.length) (hrelations : c.relations = front ++ relation :: back)
    (hrelations' : c'.relations = front ++ relation' :: back)
    (hnext : c'.nextRelationId = c.nextRelationId) (hid : relation'.id = relation.id)
    (hname : relation'.name = relation.name) (hoccupies : Occupies pages' relation' holding')
    (hids : holding'.pageIds.Nodup)
    (hfresh : ∀ i ∈ holding'.pageIds, (i ∈ holding.pageIds ∨ ¬ c.Allocated i) ∧ c'.Allocated i)
    (hgrow : ∀ i, c.Allocated i → c'.Allocated i)
    (hpages : ∀ i, c.Allocated i → i ∉ holding.pageIds → ∀ page, pages i = some page →
      pages' i = some page) : Layout pages' c' (before ++ holding' :: after) := by
  have hnodup := h.nodup
  rw [occupied_append, occupied_cons, ← List.cons_append] at hnodup
  obtain ⟨hbefore, hrest, hdisjoint⟩ := List.nodup_append.1 hnodup
  obtain ⟨-, hafter, hdisjoint'⟩ := List.nodup_append.1 hrest
  have halloc := h.allocated
  rw [occupied_append, occupied_cons, ← List.cons_append, List.forall_mem_append,
    List.forall_mem_append] at halloc
  -- The pages of the other relations are none of those that have changed.
  have hout : ∀ i ∈ occupied before, i ∉ holding.pageIds := by
    intro i hi hmem
    exact hdisjoint i (List.mem_cons_of_mem _ hi) i (List.mem_append_left _ hmem) rfl
  have hout' : ∀ i ∈ occupied after, i ∉ holding.pageIds := by
    intro i hi hmem
    exact hdisjoint' i hmem i hi rfl
  constructor
  case occupies =>
    have hall := h.occupies
    rw [hrelations] at hall
    obtain ⟨us, u, vs, hsplit, hus, -, hvs⟩ := forall₂_split hall
    obtain ⟨rfl, htail⟩ := List.append_inj hsplit (hlength.symm.trans hus.length_eq)
    obtain ⟨rfl, rfl⟩ := List.cons.inj htail
    rw [hrelations']
    refine List.rel_append ?_ (List.Forall₂.cons hoccupies ?_)
    · refine forall₂_occupies_mono hus fun i hi => ?_
      exact hpages i (halloc.1 i (List.mem_cons_of_mem _ hi)) (hout i hi)
    · refine forall₂_occupies_mono hvs fun i hi => ?_
      exact hpages i (halloc.2.2 i hi) (hout' i hi)
  case nodup =>
    rw [occupied_append, occupied_cons, ← List.cons_append, List.nodup_append, List.nodup_append]
    refine ⟨hbefore, ⟨hids, hafter, ?_⟩, ?_⟩
    · rintro i hi _ hj rfl
      rcases (hfresh i hi).1 with hmem | hnot
      · exact hout' i hj hmem
      · exact hnot (halloc.2.2 i hj)
    · rintro i hi _ hj rfl
      rcases List.mem_append.1 hj with hj | hj
      · rcases (hfresh i hj).1 with hmem | hnot
        · exact hdisjoint i hi i (List.mem_append_left _ hmem) rfl
        · exact hnot (halloc.1 i hi)
      · exact hdisjoint i hi i (List.mem_append_right _ hj) rfl
  case allocated =>
    rw [occupied_append, occupied_cons, ← List.cons_append, List.forall_mem_append,
      List.forall_mem_append]
    exact ⟨fun i hi => hgrow i (halloc.1 i hi), fun i hi => (hfresh i hi).2,
      fun i hi => hgrow i (halloc.2.2 i hi)⟩
  case relationIds =>
    have hids := h.relationIds
    rw [hrelations, List.map_append, List.map_cons] at hids
    rwa [hrelations', List.map_append, List.map_cons, hid]
  case relationBelow =>
    have hbelow := h.relationBelow
    rw [hrelations, List.forall_mem_append, List.forall_mem_cons] at hbelow
    rw [hrelations', List.forall_mem_append, List.forall_mem_cons, hnext, hid]
    exact hbelow
  case names =>
    have hnames := h.names
    rw [hrelations, List.map_append, List.map_cons] at hnames
    rwa [hrelations', List.map_append, List.map_cons, hname]

/-- The relation with an id, and its holding. -/
theorem Layout.find (h : Layout pages c held) {relationId : RelationId} {relation : RelationInfo}
    (hfind : c.relationById relationId = some relation) :
    relation.id = relationId ∧ ∃ front back before holding after,
      c.relations = front ++ relation :: back ∧ held = before ++ holding :: after ∧
      front.length = before.length ∧ Occupies pages relation holding ∧
      ∀ r ∈ front, (r.id == relationId) = false := by
  obtain ⟨hid, front, back, hsplit, hfront⟩ := List.find?_eq_some_iff_append.1 hfind
  have hall := h.occupies
  rw [hsplit] at hall
  obtain ⟨before, holding, after, rfl, hbefore, hone, -⟩ := forall₂_split hall
  refine ⟨beq_iff_eq.1 hid, front, back, before, holding, after, hsplit, rfl, hbefore.length_eq,
    hone, ?_⟩
  intro r hr
  simpa using hfront r hr

end Rules

theorem modifyFirst_append {α : Type} {p : α → Bool} {f : α → α} {xs ys : List α} {x : α}
    (hxs : ∀ y ∈ xs, p y = false) (hx : p x = true) :
    modifyFirst p f (xs ++ x :: ys) = xs ++ f x :: ys := by
  induction xs with
  | nil => rw [List.nil_append, modifyFirst, if_pos hx, List.nil_append]
  | cons y xs ih =>
      rw [List.forall_mem_cons] at hxs
      rw [List.cons_append, modifyFirst, if_neg (by rw [hxs.1]; exact Bool.false_ne_true), ih hxs.2,
        List.cons_append]

end Rdbms
