import Rdbms.Catalog.Layout
import Rdbms.Library.Hoare

/-!
# The calls of the catalog

What each call of the catalog does when it returns, and that a call that fails fails
with a user error.
-/

namespace Rdbms

open Library

namespace Catalog

variable {c : Catalog}

theorem allocateRelationId_ensures : Exec.Ensures allocateRelationId c Stop.IsUser fun id c' =>
    id = ⟨c.nextRelationId⟩ ∧ c' = { c with nextRelationId := c.nextRelationId + 1 } ∧
      c'.nextRelationId.toNat = c.nextRelationId.toNat + 1 := by
  by_cases hfull : c.nextRelationId.toNat + 1 ≥ 2 ^ 64
  · have hrun : allocateRelationId c = (DbResult.user "relation id overflow", c) := by
      simp only [allocateRelationId, Exec.bind_apply, Exec.get_apply, Exec.liftM_apply,
        failIf_of hfull]
    exact Exec.Ensures.of_error hrun ⟨_, rfl⟩
  · have hrun : allocateRelationId c =
        (.ok ⟨c.nextRelationId⟩, { c with nextRelationId := c.nextRelationId + 1 }) := by
      simp only [allocateRelationId, Exec.bind_apply, Exec.get_apply, Exec.liftM_apply,
        failIf_of_not hfull, Exec.modify_apply, Exec.pure_apply]
    refine Exec.Ensures.of_ok hrun ⟨rfl, rfl, ?_⟩
    rw [UInt64.toNat_add, UInt64.toNat_one]
    omega

theorem allocatePageId_ensures : Exec.Ensures allocatePageId c Stop.IsUser fun id c' =>
    id = ⟨c.nextPageId⟩ ∧ c' = { c with nextPageId := c.nextPageId + 1 } ∧
      c'.nextPageId.toNat = c.nextPageId.toNat + 1 := by
  rcases hrun : allocatePageId c with ⟨stop | id, c'⟩
  · refine Exec.Ensures.of_error hrun ?_
    by_cases hfull : c.nextPageId.toNat + 1 ≥ 2 ^ 64
    · simp only [allocatePageId, Exec.bind_apply, Exec.get_apply, Exec.liftM_apply,
        failIf_of hfull] at hrun
      cases hrun
      exact ⟨_, rfl⟩
    · simp only [allocatePageId, Exec.bind_apply, Exec.get_apply, Exec.liftM_apply,
        failIf_of_not hfull, Exec.modify_apply, Exec.pure_apply] at hrun
      cases hrun
  · exact Exec.Ensures.of_ok hrun (allocatePageId_eq_ok hrun)

/-- The relations are as they were. -/
structure SameRelations (c c' : Catalog) : Prop where
  relations : c'.relations = c.relations
  extensions : c'.extensions = c.extensions
  nextRelationId : c'.nextRelationId = c.nextRelationId

instance : IsPreorder Catalog SameRelations where
  refl _ := ⟨rfl, rfl, rfl⟩
  trans _ _ _ h h' := ⟨h'.relations.trans h.relations, h'.extensions.trans h.extensions,
    h'.nextRelationId.trans h.nextRelationId⟩

theorem allocatePageId_sameRelations : Exec.Preserves SameRelations allocatePageId := by
  refine Exec.Preserves.bind Exec.Preserves.get fun catalog => ?_
  refine Exec.Preserves.bind (Exec.Preserves.liftM _) fun _ => ?_
  refine Exec.Preserves.bind ?_ fun _ => Exec.Preserves.pure _
  exact fun c => ⟨rfl, rfl, rfl⟩

/-- A relation has been added, with a page of its own. -/
structure Created (c : Catalog) (relation : RelationInfo) (pageId : PageId) (c' : Catalog) :
    Prop where
  relations : c'.relations = c.relations ++ [relation]
  extensions : c'.extensions = c.extensions
  id : relation.id = ⟨c.nextRelationId⟩
  nextRelationId : c'.nextRelationId.toNat = c.nextRelationId.toNat + 1
  pageId : pageId = ⟨c.nextPageId⟩
  nextPageId : c'.nextPageId.toNat = c.nextPageId.toNat + 1
  name : ∀ r ∈ c.relations, r.name ≠ relation.name

theorem name_ne_of_relationByName {name : String} (h : ¬ (c.relationByName name).isSome) :
    ∀ r ∈ c.relations, r.name ≠ name := by
  intro r hr heq
  have hnone : c.relationByName name = none := by simpa using h
  have := List.find?_eq_none.1 hnone r hr
  simp [heq] at this

/-- The end of both calls that add a relation. -/
theorem created_ensures {f : RelationId → PageId → RelationInfo}
    (hid : ∀ relationId pageId, (f relationId pageId).id = relationId) {name : String}
    (hname : ∀ relationId pageId, (f relationId pageId).name = name)
    (hnew : ∀ r ∈ c.relations, r.name ≠ name) :
    Exec.Ensures (do
      let relationId ← allocateRelationId
      let pageId ← allocatePageId
      Exec.modify fun c => { c with relations := c.relations ++ [f relationId pageId] }
      return (relationId, pageId) : Db Catalog (RelationId × PageId)) c Stop.IsUser
      fun created c' => Created c (f created.1 created.2) created.2 c' := by
  refine Exec.Ensures.bind (allocateRelationId_ensures.imp ?_)
  rintro relationId c₁ ⟨rfl, rfl, hnextRelation⟩
  refine Exec.Ensures.bind (allocatePageId_ensures.imp ?_)
  rintro pageId c₂ ⟨rfl, rfl, hnextPage⟩
  refine Exec.Ensures.bind (Exec.Ensures.modify (Exec.Ensures.pure ?_))
  exact ⟨rfl, rfl, hid _ _, hnextRelation, rfl, hnextPage, fun r hr => by
    rw [hname]
    exact hnew r hr⟩

theorem validateName_onlyUser (kind name : String) : DbResult.OnlyUser (validateName kind name) :=
  (DbResult.onlyUser_failIf _).bind fun _ _ => DbResult.onlyUser_failIf _

theorem validateColumnsFrom_onlyUser (columns : List ColumnDef) : ∀ seen,
    DbResult.OnlyUser (validateColumnsFrom seen columns) := by
  induction columns with
  | nil => exact fun _ => DbResult.onlyUser_ok _
  | cons column columns ih =>
      intro seen
      refine (validateName_onlyUser _ _).bind fun _ _ => ?_
      refine (validateName_onlyUser _ _).bind fun _ _ => ?_
      exact (DbResult.onlyUser_failIf _).bind fun _ _ => ih _

theorem validateColumns_onlyUser (columns : List ColumnDef) :
    DbResult.OnlyUser (validateColumns columns) :=
  (DbResult.onlyUser_failIf _).bind fun _ _ => validateColumnsFrom_onlyUser columns []

/-- A check that may fail with a user error. -/
theorem ensures_check {σ α : Type} {s : σ} {r : DbResult α} {Q : α → σ → Prop}
    (hr : DbResult.OnlyUser r) (hQ : ∀ a, r = .ok a → Q a s) :
    Exec.Ensures (liftM r : Db σ α) s Stop.IsUser Q :=
  Exec.Ensures.liftM hQ hr

theorem createTableMetadata_ensures (name : String) (columns : List ColumnDef) :
    Exec.Ensures (createTableMetadata name columns) c Stop.IsUser fun created c' =>
      Created c ⟨created.1, name, .table, .heap [created.2], columns⟩ created.2 c' := by
  refine Exec.Ensures.bind (ensures_check (validateName_onlyUser _ _) fun _ _ => ?_)
  refine Exec.Ensures.bind (ensures_check (validateColumns_onlyUser _) fun _ _ => ?_)
  refine Exec.Ensures.bind (Exec.Ensures.get ?_)
  refine Exec.Ensures.bind (ensures_check (DbResult.onlyUser_failIf _) fun _ hnew => ?_)
  exact created_ensures (f := fun relationId pageId =>
    ⟨relationId, name, .table, .heap [pageId], columns⟩) (fun _ _ => rfl) (fun _ _ => rfl)
    (name_ne_of_relationByName (failIf_eq_ok.1 hnew))

/-- The table that an index is created on has the indexed column. -/
structure Indexable (c : Catalog) (tableId : RelationId) (columnName : String)
    (table : RelationInfo) : Prop where
  found : c.relationById tableId = some table
  kind : table.kind = .table
  column : ∃ column ∈ table.columns, column.name = columnName

theorem createIndexMetadata_ensures (name : String) (tableId : RelationId) (columnName : String) :
    Exec.Ensures (createIndexMetadata name tableId columnName) c Stop.IsUser fun created c' =>
      Created c ⟨created.1, name, .index, .bPlusTree ⟨tableId, columnName, created.2⟩,
        [⟨columnName, "INDEX_KEY"⟩]⟩ created.2 c' ∧
      ∃ table, c.Indexable tableId columnName table := by
  refine Exec.Ensures.bind (ensures_check (validateName_onlyUser _ _) fun _ _ => ?_)
  refine Exec.Ensures.bind (ensures_check (validateName_onlyUser _ _) fun _ _ => ?_)
  refine Exec.Ensures.bind (Exec.Ensures.get ?_)
  refine Exec.Ensures.bind (ensures_check (DbResult.onlyUser_failIf _) fun _ hnew => ?_)
  refine Exec.Ensures.bind (ensures_check (DbResult.onlyUser_okOr _ _) fun table htable => ?_)
  refine Exec.Ensures.bind (ensures_check (DbResult.onlyUser_failIf _) fun _ hheap => ?_)
  refine Exec.Ensures.bind (ensures_check (DbResult.onlyUser_failIf _) fun _ hcolumn => ?_)
  refine Exec.Ensures.bind (ensures_check (DbResult.onlyUser_failIf _) fun _ _ => ?_)
  refine (created_ensures (f := fun relationId pageId =>
    ⟨relationId, name, .index, .bPlusTree ⟨tableId, columnName, pageId⟩,
      [⟨columnName, "INDEX_KEY"⟩]⟩) (fun _ _ => rfl) (fun _ _ => rfl)
    (name_ne_of_relationByName (failIf_eq_ok.1 hnew))).imp fun _ _ hcreated => ⟨hcreated, table, ?_⟩
  refine ⟨DbResult.okOr_eq_ok htable, ?_, ?_⟩
  · simpa [RelationInfo.isHeapTable] using failIf_eq_ok.1 hheap
  · simpa using failIf_eq_ok.1 hcolumn

/-- The storage of the relation has been replaced. -/
structure Restored (c : Catalog) (front : List RelationInfo) (relation : RelationInfo)
    (back : List RelationInfo) (storage : StorageObject) (c' : Catalog) : Prop where
  relations : c'.relations = front ++ { relation with storage := storage } :: back
  extensions : c'.extensions = c.extensions
  nextRelationId : c'.nextRelationId = c.nextRelationId
  nextPageId : c'.nextPageId = c.nextPageId

theorem setStorage_restored {front back : List RelationInfo} {relation : RelationInfo}
    {relationId : RelationId} (hsplit : c.relations = front ++ relation :: back)
    (hid : relation.id = relationId) (hfront : ∀ r ∈ front, (r.id == relationId) = false)
    (storage : StorageObject) : Restored c front relation back storage (c.setStorage relationId storage) where
  relations := by
    rw [setStorage, hsplit, modifyFirst_append hfront (beq_iff_eq.2 hid)]
  extensions := rfl
  nextRelationId := rfl
  nextPageId := rfl

theorem relationById_of_split {front back : List RelationInfo} {relation : RelationInfo}
    {relationId : RelationId} (hsplit : c.relations = front ++ relation :: back)
    (hid : relation.id = relationId) (hfront : ∀ r ∈ front, (r.id == relationId) = false) :
    c.relationById relationId = some relation := by
  rw [relationById, hsplit, List.find?_append, List.find?_eq_none.2 (by simpa using hfront),
    Option.none_or, List.find?_cons_of_pos (by simpa using hid)]

theorem appendHeapPage_of_split {front back : List RelationInfo} {relation : RelationInfo}
    {relationId : RelationId} {pages : List PageId} (pageId : PageId)
    (hsplit : c.relations = front ++ relation :: back) (hid : relation.id = relationId)
    (hfront : ∀ r ∈ front, (r.id == relationId) = false) (hkind : relation.kind = .table)
    (hstorage : relation.storage = .heap pages) :
    appendHeapPage relationId pageId c =
      (.ok (), c.setStorage relationId (.heap (pages ++ [pageId]))) := by
  simp only [appendHeapPage, Exec.bind_apply, Exec.get_apply, Exec.liftM_apply,
    relationById_of_split hsplit hid hfront, DbResult.okOr, failIf_of_not (not_not.2 hkind), hstorage,
    Exec.modify_apply]

theorem setIndexRootPage_of_split {front back : List RelationInfo} {relation : RelationInfo}
    {relationId : RelationId} {storage : IndexStorage} (rootPageId : PageId)
    (hsplit : c.relations = front ++ relation :: back) (hid : relation.id = relationId)
    (hfront : ∀ r ∈ front, (r.id == relationId) = false) (hkind : relation.kind = .index)
    (hstorage : relation.storage = .bPlusTree storage) :
    setIndexRootPage relationId rootPageId c =
      (.ok (), c.setStorage relationId (.bPlusTree { storage with rootPageId := rootPageId })) := by
  simp only [setIndexRootPage, Exec.bind_apply, Exec.get_apply, Exec.liftM_apply,
    relationById_of_split hsplit hid hfront, DbResult.okOr, failIf_of_not (not_not.2 hkind), hstorage,
    Exec.modify_apply]

theorem registerExtensionMetadata_ensures (name : String) (abiVersion : UInt32) (kind : String) :
    Exec.Ensures (registerExtensionMetadata name abiVersion kind) c Stop.IsUser fun inserted c' =>
      (inserted = false → c' = c) ∧ c'.relations = c.relations ∧
        c'.nextRelationId = c.nextRelationId ∧ c'.nextPageId = c.nextPageId := by
  refine Exec.Ensures.bind (ensures_check (validateName_onlyUser _ _) fun _ _ => ?_)
  refine Exec.Ensures.bind (ensures_check (validateName_onlyUser _ _) fun _ _ => ?_)
  refine Exec.Ensures.bind (Exec.Ensures.get ?_)
  cases c.extensionByName name with
  | some existing =>
      simp only
      split
      · exact Exec.Ensures.pure ⟨fun _ => rfl, rfl, rfl, rfl⟩
      · exact ensures_check (DbResult.onlyUser_user _) nofun
  | none => exact Exec.Ensures.bind (Exec.Ensures.modify (Exec.Ensures.pure ⟨nofun, rfl, rfl, rfl⟩))

theorem ensureHeapRelation_eq_ok {relationId : RelationId} {u : Unit}
    (h : c.ensureHeapRelation relationId = .ok u) :
    ∃ relation, c.relationById relationId = some relation ∧ relation.kind = .table := by
  obtain ⟨relation, hrelation, h⟩ := except_bind_eq_ok.1 h
  refine ⟨relation, DbResult.okOr_eq_ok hrelation, ?_⟩
  simpa [RelationInfo.isHeapTable] using failIf_eq_ok.1 h

theorem ensureHeapRelation_onlyUser (c : Catalog) (relationId : RelationId) :
    DbResult.OnlyUser (c.ensureHeapRelation relationId) :=
  (DbResult.onlyUser_okOr _ _).bind fun _ _ => DbResult.onlyUser_failIf _

theorem ensureHeapRelation_of_table {relationId : RelationId} {relation : RelationInfo}
    (h : c.relationById relationId = some relation) (hkind : relation.kind = .table) :
    c.ensureHeapRelation relationId = .ok () := by
  simp [ensureHeapRelation, h, DbResult.okOr, RelationInfo.isHeapTable, hkind, failIf, bind,
    Except.bind]

theorem heapPages_of_relation {relationId : RelationId} {relation : RelationInfo}
    (h : c.relationById relationId = some relation) :
    c.heapPages relationId = .ok relation.heapPages := by
  simp only [heapPages, h, DbResult.okOr, bind, Except.bind, pure, Except.pure]

end Catalog

end Rdbms
