import Rdbms.Catalog.Calls
import Rdbms.Catalog.Heaps

/-!
# Well-formed catalogs

The constraints that tie the records of a catalog together: ids and names are given
out once, storage fits the kind of its relation, and an index is on a column of a
table and has that column to itself. Every call of the catalog keeps them, also a
call that fails after it has counted up an id.
-/

namespace Rdbms

open Library

/-- The constraints on one relation. -/
structure RelationInfo.WellFormed (relation : RelationInfo) : Prop where
  named : relation.name ≠ ""
  columnsNamed : ∀ column ∈ relation.columns, column.name ≠ "" ∧ column.typeName ≠ ""
  columns : (relation.columns.map ColumnDef.name).Nodup
  kind : relation.kind ≠ .system
  table : relation.kind = .table → ∃ pages, relation.storage = .heap pages ∧ pages ≠ [] ∧
    catalogPageId ∉ pages
  index : relation.kind = .index → ∃ storage, relation.storage = .bPlusTree storage ∧
    storage.columnName ≠ ""

/-- An index is on a column of a table of the catalog. -/
def Catalog.Refers (relations : List RelationInfo) (storage : IndexStorage) : Prop :=
  ∃ table ∈ relations, table.id = storage.tableId ∧ table.kind = .table ∧
    ∃ column ∈ table.columns, column.name = storage.columnName

/-- The constraints on a catalog. -/
structure Catalog.WellFormed (c : Catalog) : Prop where
  ids : (c.relations.map RelationInfo.id).Nodup
  idsBelow : ∀ relation ∈ c.relations, relation.id.val.toNat < c.nextRelationId.toNat
  pageIds : 0 < c.nextPageId.toNat
  names : (c.relations.map RelationInfo.name).Nodup
  relations : ∀ relation ∈ c.relations, relation.WellFormed
  targets : ∀ index ∈ c.relations, ∀ storage, index.storage = .bPlusTree storage →
    Catalog.Refers c.relations storage
  oneIndex : ∀ index ∈ c.relations, ∀ other ∈ c.relations, ∀ storage storage',
    index.storage = .bPlusTree storage → other.storage = .bPlusTree storage' →
    storage.tableId = storage'.tableId → storage.columnName = storage'.columnName →
    index.id = other.id
  extensions : (c.extensions.map ExtensionInfo.name).Nodup
  extensionsNamed : ∀ extension ∈ c.extensions, extension.name ≠ "" ∧ extension.kind ≠ ""

namespace Catalog

variable {c c' : Catalog}

/-- The operation leaves a well-formed catalog well formed. -/
def KeepsWellFormed (c c' : Catalog) : Prop := c.WellFormed → c'.WellFormed

instance : IsPreorder Catalog KeepsWellFormed where
  refl _ := id
  trans _ _ _ h h' := h' ∘ h

theorem empty_wellFormed : empty.WellFormed where
  ids := List.nodup_nil
  idsBelow := nofun
  pageIds := Nat.one_pos
  names := List.nodup_nil
  relations := nofun
  targets := nofun
  oneIndex := nofun
  extensions := List.nodup_nil
  extensionsNamed := nofun

theorem WellFormed.heapsNonempty (h : c.WellFormed) : c.HeapsNonempty := by
  intro relation hrelation pages hpages
  have hone := h.relations relation hrelation
  cases hkind : relation.kind with
  | system => exact absurd hkind hone.kind
  | table =>
      obtain ⟨pages', hpages', hne, -⟩ := hone.table hkind
      rw [hpages] at hpages'
      cases hpages'
      exact hne
  | index =>
      obtain ⟨storage, hstorage, -⟩ := hone.index hkind
      rw [hpages] at hstorage
      cases hstorage

/-! ## Counting up and adding a relation -/

/-- Ids that have been counted up are not given back. -/
theorem WellFormed.count (h : c.WellFormed) (hrelations : c'.relations = c.relations)
    (hextensions : c'.extensions = c.extensions)
    (hids : c.nextRelationId.toNat ≤ c'.nextRelationId.toNat)
    (hpageIds : c.nextPageId.toNat ≤ c'.nextPageId.toNat) : c'.WellFormed where
  ids := by
    rw [hrelations]
    exact h.ids
  idsBelow := by
    rw [hrelations]
    exact fun relation hrelation => (h.idsBelow relation hrelation).trans_le hids
  pageIds := h.pageIds.trans_le hpageIds
  names := by
    rw [hrelations]
    exact h.names
  relations := by
    rw [hrelations]
    exact h.relations
  targets := by
    rw [hrelations]
    exact h.targets
  oneIndex := by
    rw [hrelations]
    exact h.oneIndex
  extensions := by
    rw [hextensions]
    exact h.extensions
  extensionsNamed := by
    rw [hextensions]
    exact h.extensionsNamed

/-- What a relation must satisfy to be added. -/
structure Addable (c : Catalog) (relation : RelationInfo) : Prop where
  wellFormed : relation.WellFormed
  target : ∀ storage, relation.storage = .bPlusTree storage → Refers c.relations storage ∧
    ∀ index ∈ c.relations, ∀ storage', index.storage = .bPlusTree storage' →
      storage'.tableId = storage.tableId → storage'.columnName ≠ storage.columnName

theorem Refers.mono {relations relations' : List RelationInfo} {storage : IndexStorage}
    (h : Refers relations storage) (hsub : ∀ r ∈ relations, r ∈ relations') :
    Refers relations' storage := by
  obtain ⟨table, hmem, htable⟩ := h
  exact ⟨table, hsub table hmem, htable⟩

theorem WellFormed.create {relation : RelationInfo} {pageId : PageId} (h : c.WellFormed)
    (hcreated : Created c relation pageId c') (hadd : c.Addable relation) : c'.WellFormed := by
  have hmem : ∀ r ∈ c'.relations, r ∈ c.relations ∨ r = relation := by
    intro r hr
    rw [hcreated.relations] at hr
    exact (List.mem_append.1 hr).imp_right List.mem_singleton.1
  have hsub : ∀ r ∈ c.relations, r ∈ c'.relations := by
    intro r hr
    rw [hcreated.relations]
    exact List.mem_append_left _ hr
  refine ⟨?_, ?_, ?_, ?_, ?_, ?_, ?_, ?_, ?_⟩
  · rw [hcreated.relations, List.map_append]
    refine List.Nodup.append h.ids (List.nodup_singleton _) ?_
    rintro id hid hnew
    obtain ⟨r, hr, rfl⟩ := List.mem_map.1 hid
    have hbelow := h.idsBelow r hr
    have hsame : r.id = relation.id := List.mem_singleton.1 hnew
    rw [hsame, hcreated.id] at hbelow
    exact lt_irrefl _ hbelow
  · intro r hr
    rw [hcreated.nextRelationId]
    rcases hmem r hr with hr | rfl
    · exact Nat.lt_succ_of_lt (h.idsBelow r hr)
    · rw [hcreated.id]
      exact Nat.lt_succ_self _
  · rw [hcreated.nextPageId]
    exact Nat.succ_pos _
  · rw [hcreated.relations, List.map_append]
    refine List.Nodup.append h.names (List.nodup_singleton _) ?_
    rintro name hname hnew
    obtain ⟨r, hr, rfl⟩ := List.mem_map.1 hname
    exact hcreated.name r hr (List.mem_singleton.1 hnew)
  · intro r hr
    rcases hmem r hr with hr | rfl
    · exact h.relations r hr
    · exact hadd.wellFormed
  · intro index hindex storage hstorage
    rcases hmem index hindex with hindex | rfl
    · exact (h.targets index hindex storage hstorage).mono hsub
    · exact (hadd.target storage hstorage).1.mono hsub
  · intro index hindex other hother storage storage' hstorage hstorage' htable hcolumn
    rcases hmem index hindex with hindex | rfl
    · rcases hmem other hother with hother | rfl
      · exact h.oneIndex index hindex other hother storage storage' hstorage hstorage' htable hcolumn
      · exact absurd hcolumn ((hadd.target storage' hstorage').2 index hindex storage hstorage htable)
    · rcases hmem other hother with hother | rfl
      · exact absurd hcolumn.symm
          ((hadd.target storage hstorage).2 other hother storage' hstorage' htable.symm)
      · rfl
  · rw [hcreated.extensions]
    exact h.extensions
  · rw [hcreated.extensions]
    exact h.extensionsNamed

/-! ## Replacing storage -/

/-- The relation is the same but for the pages it lists. -/
structure SameTarget (relation relation' : RelationInfo) : Prop where
  id : relation'.id = relation.id
  name : relation'.name = relation.name
  kind : relation'.kind = relation.kind
  columns : relation'.columns = relation.columns
  wellFormed : relation.WellFormed → relation'.WellFormed
  target : ∀ storage', relation'.storage = .bPlusTree storage' → ∃ storage,
    relation.storage = .bPlusTree storage ∧ storage.tableId = storage'.tableId ∧
      storage.columnName = storage'.columnName

theorem SameTarget.refl (relation : RelationInfo) : SameTarget relation relation :=
  ⟨rfl, rfl, rfl, rfl, fun h => h, fun storage h => ⟨storage, h, rfl, rfl⟩⟩

theorem forall₂_modifyFirst {α : Type} {R : α → α → Prop} {p : α → Bool} {f : α → α} {xs : List α}
    (hrefl : ∀ x, R x x) (hf : ∀ x, xs.find? p = some x → R x (f x)) :
    List.Forall₂ R xs (modifyFirst p f xs) := by
  induction xs with
  | nil => exact List.Forall₂.nil
  | cons x xs ih =>
      rw [modifyFirst]
      split
      · rename_i hp
        exact List.Forall₂.cons (hf x (List.find?_cons_of_pos hp)) (List.forall₂_same.2 fun y _ => hrefl y)
      · rename_i hp
        refine List.Forall₂.cons (hrefl x) (ih fun y hy => hf y ?_)
        rwa [List.find?_cons_of_neg hp]

theorem forall₂_map_eq {α β : Type} {R : α → α → Prop} {g : α → β} {xs ys : List α}
    (h : List.Forall₂ R xs ys) (hg : ∀ x y, R x y → g y = g x) : ys.map g = xs.map g := by
  induction h with
  | nil => rfl
  | cons hxy _ ih => rw [List.map_cons, List.map_cons, hg _ _ hxy, ih]

theorem WellFormed.restore (h : c.WellFormed)
    (hrelations : List.Forall₂ SameTarget c.relations c'.relations)
    (hextensions : c'.extensions = c.extensions) (hids : c'.nextRelationId = c.nextRelationId)
    (hpageIds : c'.nextPageId = c.nextPageId) : c'.WellFormed := by
  have hback : ∀ {r'}, r' ∈ c'.relations → ∃ r ∈ c.relations, SameTarget r r' :=
    fun hr' => forall₂_mem_right hrelations hr'
  have hforth : ∀ {r}, r ∈ c.relations → ∃ r' ∈ c'.relations, SameTarget r r' :=
    fun hr => forall₂_mem_right hrelations.flip hr
  refine ⟨?_, ?_, ?_, ?_, ?_, ?_, ?_, ?_, ?_⟩
  · rw [forall₂_map_eq hrelations fun _ _ hsame => hsame.id]
    exact h.ids
  · intro r' hr'
    obtain ⟨r, hr, hsame⟩ := hback hr'
    rw [hsame.id, hids]
    exact h.idsBelow r hr
  · rw [hpageIds]
    exact h.pageIds
  · rw [forall₂_map_eq hrelations fun _ _ hsame => hsame.name]
    exact h.names
  · intro r' hr'
    obtain ⟨r, hr, hsame⟩ := hback hr'
    exact hsame.wellFormed (h.relations r hr)
  · intro index' hindex' storage' hstorage'
    obtain ⟨index, hindex, hsame⟩ := hback hindex'
    obtain ⟨storage, hstorage, htableId, hcolumnName⟩ := hsame.target storage' hstorage'
    obtain ⟨table, htable, hid, hkind, hcolumn⟩ := h.targets index hindex storage hstorage
    obtain ⟨table', htable', hsame'⟩ := hforth htable
    refine ⟨table', htable', ?_, ?_, ?_⟩
    · rw [hsame'.id, hid, htableId]
    · rw [hsame'.kind, hkind]
    · rw [hsame'.columns, ← hcolumnName]
      exact hcolumn
  · intro index' hindex' other' hother' storage₁ storage₂ hstorage₁ hstorage₂ htable hcolumn
    obtain ⟨index, hindex, hsame⟩ := hback hindex'
    obtain ⟨other, hother, hsame'⟩ := hback hother'
    obtain ⟨old₁, hold₁, htable₁, hcolumn₁⟩ := hsame.target storage₁ hstorage₁
    obtain ⟨old₂, hold₂, htable₂, hcolumn₂⟩ := hsame'.target storage₂ hstorage₂
    rw [hsame.id, hsame'.id]
    refine h.oneIndex index hindex other hother old₁ old₂ hold₁ hold₂ ?_ ?_
    · rw [htable₁, htable₂, htable]
    · rw [hcolumn₁, hcolumn₂, hcolumn]
  · rw [hextensions]
    exact h.extensions
  · rw [hextensions]
    exact h.extensionsNamed

/-- The storage of the relation with the id is replaced by storage of the same kind on the
same column. -/
theorem WellFormed.setStorage {relationId : RelationId} {storage : StorageObject} (h : c.WellFormed)
    (hsame : ∀ relation, c.relationById relationId = some relation →
      SameTarget relation { relation with storage := storage }) :
    (c.setStorage relationId storage).WellFormed :=
  h.restore (forall₂_modifyFirst SameTarget.refl hsame) rfl rfl rfl

/-! ## Checks -/

theorem validateName_eq_ok {kind name : String} {u : Unit} (h : validateName kind name = .ok u) :
    name ≠ "" := by
  obtain ⟨⟨⟩, hempty, -⟩ := except_bind_eq_ok.1 h
  have hname := failIf_eq_ok.1 hempty
  simpa using hname

/-- Columns that pass the checks have names, all different and none seen before. -/
theorem validateColumnsFrom_eq_ok {columns : List ColumnDef} : ∀ {seen : List ColumnDef} {u : Unit},
    validateColumnsFrom seen columns = .ok u →
    (∀ column ∈ columns, column.name ≠ "" ∧ column.typeName ≠ "") ∧
      (columns.map ColumnDef.name).Nodup ∧
      ∀ column ∈ columns, ∀ previous ∈ seen, previous.name ≠ column.name := by
  induction columns with
  | nil => exact fun _ => ⟨nofun, List.nodup_nil, nofun⟩
  | cons column columns ih =>
      intro seen u h
      obtain ⟨⟨⟩, hname, h⟩ := except_bind_eq_ok.1 h
      obtain ⟨⟨⟩, htypeName, h⟩ := except_bind_eq_ok.1 h
      obtain ⟨⟨⟩, hfresh, h⟩ := except_bind_eq_ok.1 h
      obtain ⟨hnamed, hnodup, hseen⟩ := ih h
      refine ⟨?_, ?_, ?_⟩
      · intro column' hcolumn'
        rcases List.mem_cons.1 hcolumn' with rfl | hcolumn'
        · exact ⟨validateName_eq_ok hname, validateName_eq_ok htypeName⟩
        · exact hnamed column' hcolumn'
      · rw [List.map_cons, List.nodup_cons]
        refine ⟨?_, hnodup⟩
        intro hmem
        obtain ⟨column', hcolumn', heq⟩ := List.mem_map.1 hmem
        exact hseen column' hcolumn' column (by simp) heq.symm
      · intro column' hcolumn' previous hprevious
        rcases List.mem_cons.1 hcolumn' with rfl | hcolumn'
        · have hnone := failIf_eq_ok.1 hfresh
          simp only [List.any_eq_true, beq_iff_eq, not_exists, not_and] at hnone
          exact hnone previous hprevious
        · exact hseen column' hcolumn' previous (List.mem_append_left _ hprevious)

theorem validateColumns_eq_ok {columns : List ColumnDef} {u : Unit}
    (h : validateColumns columns = .ok u) :
    (∀ column ∈ columns, column.name ≠ "" ∧ column.typeName ≠ "") ∧
      (columns.map ColumnDef.name).Nodup := by
  obtain ⟨⟨⟩, -, h⟩ := except_bind_eq_ok.1 h
  obtain ⟨hnamed, hnodup, -⟩ := validateColumnsFrom_eq_ok h
  exact ⟨hnamed, hnodup⟩

theorem relationById_mem {relationId : RelationId} {relation : RelationInfo}
    (h : c.relationById relationId = some relation) :
    relation ∈ c.relations ∧ relation.id = relationId :=
  ⟨List.mem_of_find?_eq_some h, by simpa using List.find?_some h⟩

theorem indexable_of_checks {tableId : RelationId} {columnName : String} {table : RelationInfo}
    {stop stop₁ stop₂ : Stop} {u u' : Unit}
    (htable : DbResult.okOr (c.relationById tableId) (.error stop) = .ok table)
    (hheap : failIf (table.isHeapTable = false) (.error stop₁) = .ok u)
    (hcolumn : failIf (table.columns.all fun column => column.name != columnName) (.error stop₂) =
      .ok u') : c.Indexable tableId columnName table := by
  refine ⟨DbResult.okOr_eq_ok htable, ?_, ?_⟩
  · simpa [RelationInfo.isHeapTable] using failIf_eq_ok.1 hheap
  · simpa using failIf_eq_ok.1 hcolumn

/-- A table that may be added. -/
theorem addable_table (c : Catalog) {name : String} {columns : List ColumnDef}
    {relationId : RelationId} {pageId : PageId} {u u' : Unit}
    (hname : validateName "relation" name = .ok u) (hcolumns : validateColumns columns = .ok u')
    (hpageId : pageId ≠ catalogPageId) :
    c.Addable ⟨relationId, name, .table, .heap [pageId], columns⟩ := by
  obtain ⟨hnamed, hnodup⟩ := validateColumns_eq_ok hcolumns
  refine ⟨⟨validateName_eq_ok hname, hnamed, hnodup, nofun, fun _ => ⟨_, rfl, by simp, ?_⟩, nofun⟩,
    nofun⟩
  rw [List.mem_singleton]
  exact hpageId.symm

/-- An index that may be added. -/
theorem addable_index (h : c.WellFormed) {name columnName : String} {tableId : RelationId}
    {table : RelationInfo} {relationId : RelationId} {pageId : PageId}
    (hname : name ≠ "") (hcolumnName : columnName ≠ "") (hindexable : c.Indexable tableId columnName table)
    (hfree : ∀ index ∈ c.indexesOnTable tableId, ∀ storage, index.storage = .bPlusTree storage →
      storage.columnName ≠ columnName) :
    c.Addable ⟨relationId, name, .index, .bPlusTree ⟨tableId, columnName, pageId⟩,
      [⟨columnName, "INDEX_KEY"⟩]⟩ := by
  obtain ⟨hmem, hid⟩ := relationById_mem hindexable.found
  refine ⟨⟨hname, ?_, List.nodup_singleton _, nofun, nofun, fun _ => ⟨_, rfl, hcolumnName⟩⟩, ?_⟩
  · intro column hcolumn
    rw [List.mem_singleton.1 hcolumn]
    exact ⟨hcolumnName, show "INDEX_KEY" ≠ "" by decide⟩
  · rintro storage ⟨⟩
    refine ⟨⟨table, hmem, hid, hindexable.kind, hindexable.column⟩, ?_⟩
    intro index hindex storage' hstorage' htable
    refine hfree index (List.mem_filter.2 ⟨hindex, ?_⟩) storage' hstorage'
    -- A relation with the storage of an index is an index.
    have hkind : index.kind = .index := by
      have hone := h.relations index hindex
      cases hkind : index.kind with
      | index => rfl
      | system => exact absurd hkind hone.kind
      | table =>
          obtain ⟨pages, hpages, -⟩ := hone.table hkind
          rw [hstorage'] at hpages
          cases hpages
    simp [hkind, RelationInfo.indexStorage, StorageObject.indexStorage, hstorage', htable]

/-! ## The calls -/

theorem toNat_succ_le {n : UInt64} (h : ¬ n.toNat + 1 ≥ 2 ^ 64) : n.toNat ≤ (n + 1).toNat := by
  rw [UInt64.toNat_add, UInt64.toNat_one]
  omega

theorem allocateRelationId_keepsWellFormed : Exec.Preserves KeepsWellFormed allocateRelationId := by
  intro c
  refine Exec.rel_get ?_
  refine Exec.rel_check fun _ hroom => ?_
  refine Exec.rel_bind ?_ fun _ t _ => refl_of KeepsWellFormed t
  exact fun h => h.count rfl rfl (toNat_succ_le (failIf_eq_ok.1 hroom)) le_rfl

theorem allocatePageId_keepsWellFormed : Exec.Preserves KeepsWellFormed allocatePageId := by
  intro c
  refine Exec.rel_get ?_
  refine Exec.rel_check fun _ hroom => ?_
  refine Exec.rel_bind ?_ fun _ t _ => refl_of KeepsWellFormed t
  exact fun h => h.count rfl rfl le_rfl (toNat_succ_le (failIf_eq_ok.1 hroom))

/-- A page id that is handed out is never that of the catalog page. -/
theorem allocatePageId_ne {pageId : PageId} (h : c.WellFormed)
    (hrun : allocatePageId c = (.ok pageId, c')) : pageId ≠ catalogPageId := by
  obtain ⟨rfl, -⟩ := allocatePageId_ensures.ok hrun
  intro heq
  have hpos := h.pageIds
  rw [PageId.mk.inj heq] at hpos
  exact lt_irrefl _ hpos

/-- The end of both calls that add a relation. -/
theorem created_keepsWellFormed {f : RelationId → PageId → RelationInfo}
    (hid : ∀ relationId pageId, (f relationId pageId).id = relationId) {name : String}
    (hname : ∀ relationId pageId, (f relationId pageId).name = name)
    (hnew : ∀ r ∈ c.relations, r.name ≠ name)
    (hadd : c.WellFormed → ∀ relationId pageId, pageId ≠ catalogPageId →
      c.Addable (f relationId pageId)) :
    KeepsWellFormed c ((do
      let relationId ← allocateRelationId
      let pageId ← allocatePageId
      Exec.modify fun c => { c with relations := c.relations ++ [f relationId pageId] }
      return (relationId, pageId) : Db Catalog (RelationId × PageId)) c).2 := by
  intro h
  rcases hrun : (do
      let relationId ← allocateRelationId
      let pageId ← allocatePageId
      Exec.modify fun c => { c with relations := c.relations ++ [f relationId pageId] }
      return (relationId, pageId) : Db Catalog (RelationId × PageId)) c with ⟨stop | created, c'⟩
  · -- Only the counters have been counted up.
    rcases Exec.bind_eq_error.1 hrun with hfail | ⟨relationId, c₁, hrelation, hrest⟩
    · exact allocateRelationId_keepsWellFormed.rel hfail h
    · have h₁ := allocateRelationId_keepsWellFormed.rel hrelation h
      rcases Exec.bind_eq_error.1 hrest with hfail | ⟨pageId, c₂, -, hrest⟩
      · exact allocatePageId_keepsWellFormed.rel hfail h₁
      · cases hrest
  · have hcreated := (created_ensures hid hname hnew).ok hrun
    refine h.create hcreated (hadd h _ _ ?_)
    rw [hcreated.pageId]
    intro heq
    have hpos := h.pageIds
    rw [PageId.mk.inj heq] at hpos
    exact lt_irrefl _ hpos

theorem createTableMetadata_keepsWellFormed (name : String) (columns : List ColumnDef) :
    Exec.Preserves KeepsWellFormed (createTableMetadata name columns) := by
  intro c
  refine Exec.rel_check fun _ hname => ?_
  refine Exec.rel_check fun _ hcolumns => ?_
  refine Exec.rel_get ?_
  refine Exec.rel_check fun _ hnew => ?_
  exact created_keepsWellFormed (f := fun relationId pageId =>
    ⟨relationId, name, .table, .heap [pageId], columns⟩) (fun _ _ => rfl) (fun _ _ => rfl)
    (name_ne_of_relationByName (failIf_eq_ok.1 hnew))
    fun _ _ _ hpageId => addable_table c hname hcolumns hpageId

theorem createIndexMetadata_keepsWellFormed (name : String) (tableId : RelationId)
    (columnName : String) :
    Exec.Preserves KeepsWellFormed (createIndexMetadata name tableId columnName) := by
  intro c
  refine Exec.rel_check fun _ hname => ?_
  refine Exec.rel_check fun _ hcolumnName => ?_
  refine Exec.rel_get ?_
  refine Exec.rel_check fun _ hnew => ?_
  refine Exec.rel_check fun table htable => ?_
  refine Exec.rel_check fun _ hheap => ?_
  refine Exec.rel_check fun _ hcolumn => ?_
  refine Exec.rel_check fun _ hfree => ?_
  refine created_keepsWellFormed (f := fun relationId pageId =>
    ⟨relationId, name, .index, .bPlusTree ⟨tableId, columnName, pageId⟩,
      [⟨columnName, "INDEX_KEY"⟩]⟩) (fun _ _ => rfl) (fun _ _ => rfl)
    (name_ne_of_relationByName (failIf_eq_ok.1 hnew)) fun h _ _ _ => ?_
  refine addable_index h (validateName_eq_ok hname) (validateName_eq_ok hcolumnName)
    (indexable_of_checks htable hheap hcolumn) ?_
  intro index hindex storage hstorage heq
  refine failIf_eq_ok.1 hfree (List.any_eq_true.2 ⟨index, hindex, ?_⟩)
  simp [RelationInfo.indexStorage, StorageObject.indexStorage, hstorage, heq]

theorem appendHeapPage_keepsWellFormed (relationId : RelationId) {pageId : PageId}
    (hpageId : pageId ≠ catalogPageId) :
    Exec.Preserves KeepsWellFormed (appendHeapPage relationId pageId) := by
  intro c
  refine Exec.rel_get ?_
  refine Exec.rel_check fun relation hrelation => ?_
  refine Exec.rel_check fun _ hkind => ?_
  have hkind := not_not.1 (failIf_eq_ok.1 hkind)
  cases hstorage : relation.storage with
  | bPlusTree storage => exact refl_of KeepsWellFormed c
  | heap pages =>
      refine fun h => h.setStorage fun relation' hrelation' => ?_
      rw [DbResult.okOr_eq_ok hrelation] at hrelation'
      cases hrelation'
      refine ⟨rfl, rfl, rfl, rfl, fun hone => ?_, nofun⟩
      refine ⟨hone.named, hone.columnsNamed, hone.columns, hone.kind, fun htable => ?_, ?_⟩
      · obtain ⟨pages', hpages', -, hfree⟩ := hone.table htable
        rw [hstorage] at hpages'
        cases hpages'
        refine ⟨_, rfl, by simp, ?_⟩
        simp only [List.mem_append, List.mem_singleton, not_or]
        exact ⟨hfree, hpageId.symm⟩
      · intro hindex
        rw [hkind] at hindex
        cases hindex

theorem setIndexRootPage_keepsWellFormed (indexRelationId : RelationId) (rootPageId : PageId) :
    Exec.Preserves KeepsWellFormed (setIndexRootPage indexRelationId rootPageId) := by
  intro c
  refine Exec.rel_get ?_
  refine Exec.rel_check fun relation hrelation => ?_
  refine Exec.rel_check fun _ hkind => ?_
  have hkind := not_not.1 (failIf_eq_ok.1 hkind)
  cases hstorage : relation.storage with
  | heap pages => exact refl_of KeepsWellFormed c
  | bPlusTree storage =>
      refine fun h => h.setStorage fun relation' hrelation' => ?_
      rw [DbResult.okOr_eq_ok hrelation] at hrelation'
      cases hrelation'
      refine ⟨rfl, rfl, rfl, rfl, fun hone => ?_, ?_⟩
      · refine ⟨hone.named, hone.columnsNamed, hone.columns, hone.kind, fun htable => ?_, fun hindex => ?_⟩
        · rw [hkind] at htable
          cases htable
        · obtain ⟨storage', hstorage', hcolumnName⟩ := hone.index hindex
          rw [hstorage] at hstorage'
          cases hstorage'
          exact ⟨_, rfl, hcolumnName⟩
      · rintro storage' ⟨⟩
        exact ⟨storage, hstorage, rfl, rfl⟩

theorem WellFormed.register {extension : ExtensionInfo} (h : c.WellFormed)
    (hnew : c.extensionByName extension.name = none)
    (hnamed : extension.name ≠ "" ∧ extension.kind ≠ "") :
    WellFormed { c with extensions := c.extensions ++ [extension] } where
  ids := h.ids
  idsBelow := h.idsBelow
  pageIds := h.pageIds
  names := h.names
  relations := h.relations
  targets := h.targets
  oneIndex := h.oneIndex
  extensions := by
    rw [List.map_append]
    refine List.Nodup.append h.extensions (List.nodup_singleton _) ?_
    rintro name hname hsame
    obtain ⟨other, hother, rfl⟩ := List.mem_map.1 hname
    have hne := List.find?_eq_none.1 hnew other hother
    rw [List.mem_singleton.1 hsame] at hne
    simp at hne
  extensionsNamed := by
    intro other hother
    rcases List.mem_append.1 hother with hother | hother
    · exact h.extensionsNamed other hother
    · rw [List.mem_singleton.1 hother]
      exact hnamed

theorem registerExtensionMetadata_keepsWellFormed (name : String) (abiVersion : UInt32)
    (kind : String) :
    Exec.Preserves KeepsWellFormed (registerExtensionMetadata name abiVersion kind) := by
  intro c
  refine Exec.rel_check fun _ hname => ?_
  refine Exec.rel_check fun _ hkind => ?_
  refine Exec.rel_get ?_
  cases hfound : c.extensionByName name with
  | some existing =>
      simp only
      split
      · exact refl_of KeepsWellFormed c
      · exact refl_of KeepsWellFormed c
  | none =>
      refine Exec.rel_bind ?_ fun _ t _ => refl_of KeepsWellFormed t
      exact fun h => h.register hfound ⟨validateName_eq_ok hname, validateName_eq_ok hkind⟩

end Catalog

end Rdbms
