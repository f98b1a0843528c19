import Rdbms.Library.Matching
import Rdbms.Tx.Limits

/-!
# What calls are refused for

A call of a transaction checks what it is asked for against the working catalog. It fails at
one of these checks, or at a limit of the storage behind them.
-/

namespace Rdbms

open Library Disk BPlusTree

/-! ## Calls of the catalog -/

namespace Catalog

variable {c : Catalog}

/-- What a new table is checked for. -/
def tableCheck (c : Catalog) (name : String) (columns : List ColumnDef) : DbResult Unit := do
  validateName "relation" name
  validateColumns columns
  failIf (c.relationByName name).isSome (DbResult.user s!"relation already exists: {name}")

/-- What a new index is checked for. -/
def indexCheck (c : Catalog) (name : String) (tableId : RelationId) (columnName : String) :
    DbResult Unit := do
  validateName "index" name
  validateName "column" columnName
  failIf (c.relationByName name).isSome (DbResult.user s!"relation already exists: {name}")
  let id := tableId.val
  let table ← DbResult.okOr (c.relationById tableId)
    (DbResult.user s!"unknown table relation id: {id}")
  let tableName := table.name
  failIf (table.isHeapTable = false) (DbResult.user s!"indexed relation is not a heap table: {id}")
  failIf (table.columns.all fun column => column.name != columnName)
    (DbResult.user s!"unknown indexed column '{columnName}' on relation '{tableName}'")
  failIf ((c.indexesOnTable tableId).any fun relation =>
      relation.indexStorage.any fun storage => storage.columnName == columnName)
    (DbResult.user s!"index already exists on relation {id} column {columnName}")

/-- What a new extension is checked for. -/
def extensionCheck (c : Catalog) (name : String) (abiVersion : UInt32) (kind : String) :
    DbResult Unit := do
  validateName "extension" name
  validateName "extension kind" kind
  failIf ((c.extensionByName name).any fun existing =>
      ¬ (existing.abiVersion = abiVersion ∧ existing.kind = kind))
    (DbResult.user s!"extension already registered with different metadata: {name}")

/-- The extensions with another one, unless it is there already. -/
def withExtension (c : Catalog) (name : String) (abiVersion : UInt32) (kind : String) :
    List ExtensionInfo :=
  if (c.extensionByName name).isSome then c.extensions else c.extensions ++ [⟨name, abiVersion, kind⟩]

/-- Both calls that add a relation end in this way. -/
theorem created_ofStorage (f : RelationId → PageId → RelationInfo) :
    Exec.LeavesIn Stop.OfStorage (do
      let relationId ← allocateRelationId
      let pageId ← allocatePageId
      Exec.modify fun c => { c with relations := c.relations ++ [f relationId pageId] }
      return (relationId, pageId) : Db Catalog (RelationId × PageId)) :=
  allocateRelationId_ofStorage.bind fun _ => allocatePageId_ofStorage.bind fun _ =>
    (Exec.LeavesIn.modify _).bind fun _ => Exec.LeavesIn.pure _

theorem createTableMetadata_matches (name : String) (columns : List ColumnDef) :
    Exec.Matches (createTableMetadata name columns) c (c.tableCheck name columns) Stop.OfStorage
      fun _ _ _ => True := by
  refine Exec.Matches.same fun _ _ => Exec.Matches.same fun _ _ => ?_
  refine Exec.Matches.bind_after (Exec.Ensures.get (Exec.Matches.last fun _ _ => ?_))
  exact (created_ofStorage fun relationId pageId =>
    ⟨relationId, name, .table, .heap [pageId], columns⟩).ensures c

theorem createIndexMetadata_matches (name : String) (tableId : RelationId) (columnName : String) :
    Exec.Matches (createIndexMetadata name tableId columnName) c
      (c.indexCheck name tableId columnName) Stop.OfStorage fun _ _ _ => True := by
  refine Exec.Matches.same fun _ _ => Exec.Matches.same fun _ _ => ?_
  refine Exec.Matches.bind_after (Exec.Ensures.get ?_)
  refine Exec.Matches.same fun _ _ => Exec.Matches.same fun table _ => ?_
  refine Exec.Matches.same fun _ _ => Exec.Matches.same fun _ _ => ?_
  refine Exec.Matches.last fun _ _ => ?_
  exact (created_ofStorage fun relationId pageId => ⟨relationId, name, .index,
    .bPlusTree ⟨tableId, columnName, pageId⟩, [⟨columnName, "INDEX_KEY"⟩]⟩).ensures c

theorem registerExtensionMetadata_matches (name : String) (abiVersion : UInt32) (kind : String) :
    Exec.Matches (registerExtensionMetadata name abiVersion kind) c
      (c.extensionCheck name abiVersion kind) Stop.OfStorage fun _ _ c' =>
        c' = { c with extensions := c.withExtension name abiVersion kind } := by
  refine Exec.Matches.same fun _ _ => Exec.Matches.same fun _ _ => ?_
  refine Exec.Matches.bind_after (Exec.Ensures.get ?_)
  rw [withExtension]
  cases hfound : c.extensionByName name with
  | none =>
      refine Exec.Matches.of_ensures (Exec.Ensures.bind (Exec.Ensures.modify (Exec.Ensures.pure ?_)))
      rfl
  | some existing =>
      simp only [Option.any_some, decide_eq_true_eq]
      by_cases hsame : existing.abiVersion = abiVersion ∧ existing.kind = kind
      · rw [failIf_of_not (not_not.2 hsame), if_pos hsame]
        exact Exec.Matches.of_ensures (Exec.Ensures.pure rfl)
      · rw [failIf_of hsame, if_neg hsame]
        exact Exec.Matches.of_error rfl (Or.inl rfl)

/-- The ids and the extensions handed out so far are the same. -/
structure SameRegister (c c' : Catalog) : Prop where
  nextRelationId : c'.nextRelationId = c.nextRelationId
  extensions : c'.extensions = c.extensions

instance : IsPreorder Catalog SameRegister where
  refl _ := ⟨rfl, rfl⟩
  trans _ _ _ h h' := ⟨h'.nextRelationId.trans h.nextRelationId, h'.extensions.trans h.extensions⟩

theorem SameRelations.sameRegister {c' : Catalog} (h : SameRelations c c') : SameRegister c c' :=
  ⟨h.nextRelationId, h.extensions⟩

theorem modify_sameRegister {f : Catalog → Catalog} (h : ∀ c, SameRegister c (f c)) :
    Exec.Preserves SameRegister (Exec.modify f : Db Catalog Unit) := h

theorem appendHeapPage_sameRegister (relationId : RelationId) (pageId : PageId) :
    Exec.Preserves SameRegister (appendHeapPage relationId pageId) := by
  refine Exec.Preserves.bind Exec.Preserves.get fun c => ?_
  refine Exec.Preserves.bind (Exec.Preserves.liftM _) fun relation => ?_
  refine Exec.Preserves.bind (Exec.Preserves.liftM _) fun _ => ?_
  cases relation.storage with
  | heap pages => exact modify_sameRegister fun _ => ⟨rfl, rfl⟩
  | bPlusTree storage => exact Exec.Preserves.liftM _

theorem setIndexRootPage_sameRegister (indexRelationId : RelationId) (rootPageId : PageId) :
    Exec.Preserves SameRegister (setIndexRootPage indexRelationId rootPageId) := by
  refine Exec.Preserves.bind Exec.Preserves.get fun c => ?_
  refine Exec.Preserves.bind (Exec.Preserves.liftM _) fun relation => ?_
  refine Exec.Preserves.bind (Exec.Preserves.liftM _) fun _ => ?_
  cases relation.storage with
  | heap pages => exact Exec.Preserves.liftM _
  | bPlusTree storage => exact modify_sameRegister fun _ => ⟨rfl, rfl⟩

/-- The table is there, so it takes another page. -/
theorem appendHeapPage_ofStorage {relationId : RelationId} {relation : RelationInfo}
    (hfind : c.relationById relationId = some relation) (hkind : relation.kind = .table)
    (pageId : PageId) : FailsIn Stop.OfStorage (appendHeapPage relationId pageId c).1 := by
  simp only [appendHeapPage, Exec.bind_apply, Exec.get_apply, Exec.liftM_apply, hfind, DbResult.okOr,
    failIf_of_not (not_not.2 hkind)]
  cases relation.storage with
  | heap pages => exact FailsIn.ok ()
  | bPlusTree storage => exact FailsIn.error trivial

end Catalog

/-! ## Calls of a transaction -/

namespace Transaction

/-- The working catalogs are the same. -/
def SameCatalog (s t : Transaction FileId × Disk) : Prop := t.1.workingCatalog = s.1.workingCatalog

instance : IsPreorder (Transaction FileId × Disk) SameCatalog where
  refl _ := rfl
  trans _ _ _ h h' := h'.trans h

/-- The working catalogs have handed out the same ids and extensions. -/
def SameRegister (s t : Transaction FileId × Disk) : Prop :=
  s.1.workingCatalog.SameRegister t.1.workingCatalog

instance : IsPreorder (Transaction FileId × Disk) SameRegister where
  refl s := refl_of Catalog.SameRegister s.1.workingCatalog
  trans _ _ _ h h' := trans_of Catalog.SameRegister h h'

variable {s t : Transaction FileId × Disk} {tx : Transaction FileId} {d : Disk} {held : List Holding}

theorem SameCatalog.sameRegister (h : SameCatalog s t) : SameRegister s t := by
  rw [SameRegister, show t.1.workingCatalog = s.1.workingCatalog from h]
  exact refl_of Catalog.SameRegister _

theorem onCatalog_sameRegister {α : Type} {m : Db Catalog α}
    (h : Exec.Preserves Catalog.SameRegister m) : Exec.Preserves SameRegister (onCatalog m) :=
  fun s => h s.1.workingCatalog

theorem stage_sameCatalog (pageId : PageId) (page : Page) :
    Exec.Preserves SameCatalog (stage pageId page : Db (Transaction FileId × Disk) _) :=
  fun _ => rfl

theorem current_sameCatalog :
    Exec.Preserves SameCatalog (current : Db (Transaction FileId × Disk) _) := fun _ => rfl

theorem markCatalogDirty_sameCatalog :
    Exec.Preserves SameCatalog (markCatalogDirty : Db (Transaction FileId × Disk) _) :=
  Exec.Preserves.bind current_sameCatalog fun _ =>
    Exec.Preserves.bind (Exec.Preserves.liftM _) fun _ => stage_sameCatalog _ _

theorem loadPage_sameCatalog (pageId : PageId) :
    Exec.Preserves SameCatalog (loadPage pageId : Db (Transaction FileId × Disk) _) := by
  intro s
  have htx : (loadPage pageId s).2.1 = s.1 := loadPage_eq_tx Prod.mk.eta.symm
  rw [SameCatalog, htx]

/-- A row is put into a page, or the next page is tried, or the call fails as the page does. -/
theorem insertIntoPages_of_load {pageId : PageId} {page : Page}
    (hload : loadPage pageId s = (.ok page, t)) (bytes : List UInt8) (pageIds : List PageId) :
    (∃ rowId page', insertIntoPages bytes (pageId :: pageIds) s =
      (.ok (some rowId), (t.1.withStaged pageId page', t.2))) ∨
    insertIntoPages bytes (pageId :: pageIds) s = insertIntoPages bytes pageIds t ∨
    ∃ stop, insertIntoPages bytes (pageId :: pageIds) s = (.error stop, t) ∧ stop.OfStorage := by
  have hfails := Page.insertRecord_ofStorage bytes page
  rw [insertIntoPages, Exec.bind_of_ok hload]
  rcases hinsert : Page.insertRecord bytes page with ⟨stop | slotId, page'⟩
  · rw [hinsert] at hfails
    have hstop := hfails stop rfl
    cases stop with
    | error e =>
        cases e with
        | user message => exact Or.inr (Or.inl rfl)
        | retryable message => exact Or.inr (Or.inr ⟨_, rfl, hstop⟩)
        | io kind => exact Or.inr (Or.inr ⟨_, rfl, hstop⟩)
        | corruption message => exact Or.inr (Or.inr ⟨_, rfl, hstop⟩)
        | internalInvariant message => exact Or.inr (Or.inr ⟨_, rfl, hstop⟩)
        | extension message => exact Or.inr (Or.inr ⟨_, rfl, hstop⟩)
    | panicked => exact Or.inr (Or.inr ⟨_, rfl, hstop⟩)
    | aborted => exact Or.inr (Or.inr ⟨_, rfl, hstop⟩)
    | outOfFuel => exact Or.inr (Or.inr ⟨_, rfl, hstop⟩)
  · exact Or.inl ⟨⟨pageId, slotId⟩, page', rfl⟩

/-- Trying the pages leaves the working catalog alone and fails as the storage does. -/
theorem insertIntoPages_outcome (bytes : List UInt8) (pageIds : List PageId) :
    ∀ s : Transaction FileId × Disk, SameCatalog s (insertIntoPages bytes pageIds s).2 ∧
      FailsIn Stop.OfStorage (insertIntoPages bytes pageIds s).1 := by
  induction pageIds with
  | nil => exact fun s => ⟨refl_of SameCatalog s, FailsIn.ok none⟩
  | cons pageId pageIds ih =>
      intro s
      rcases hload : loadPage pageId s with ⟨stop | page, t⟩
      · have hstop := loadPage_ofStorage pageId s stop
        rw [hload] at hstop
        rw [insertIntoPages, Exec.bind_of_error hload]
        exact ⟨(loadPage_sameCatalog pageId).rel hload, FailsIn.error (hstop rfl)⟩
      have hsame : SameCatalog s t := (loadPage_sameCatalog pageId).rel hload
      rcases insertIntoPages_of_load hload bytes pageIds with
        ⟨rowId, page', hrun⟩ | hrun | ⟨stop, hrun, hstop⟩
      · rw [hrun]
        exact ⟨hsame, FailsIn.ok _⟩
      · rw [hrun]
        exact ⟨trans_of SameCatalog hsame (ih t).1, (ih t).2⟩
      · rw [hrun]
        exact ⟨hsame, FailsIn.error hstop⟩

theorem insertIntoPages_ensures_same (bytes : List UInt8) (pageIds : List PageId)
    (s : Transaction FileId × Disk) :
    Exec.Ensures (insertIntoPages bytes pageIds) s Stop.OfStorage fun _ t => SameCatalog s t := by
  obtain ⟨hsame, hfails⟩ := insertIntoPages_outcome bytes pageIds s
  rcases hrun : insertIntoPages bytes pageIds s with ⟨stop | placed, t⟩
  · rw [hrun] at hfails
    exact Exec.Ensures.of_error hrun (hfails stop rfl)
  · rw [hrun] at hsame
    exact Exec.Ensures.of_ok hrun hsame

theorem markCatalogDirty_ensures_same (s : Transaction FileId × Disk) :
    Exec.Ensures markCatalogDirty s Stop.OfStorage fun _ t => SameCatalog s t := by
  have hleaves : Exec.LeavesIn Stop.OfStorage (markCatalogDirty : Db (Transaction FileId × Disk) _) :=
    Exec.LeavesIn.get.bind fun s => (Exec.LeavesIn.liftM (Catalog.toPage_ofStorage _)).bind
      fun _ => Exec.LeavesIn.modify _
  exact ((hleaves.ensures s).and_rel markCatalogDirty_sameCatalog).imp fun _ _ h => h.2

theorem ensureActive_step {Q : Unit → Transaction FileId × Disk → Prop} {E : Stop → Prop}
    (h : s.1.state = .active) (hQ : Q () s) : Exec.Ensures ensureActive s E Q :=
  Exec.Ensures.of_ok (ensureActive_of_active h) hQ

theorem onCatalog_matches {α γ : Type} {m : Db Catalog α} {spec : DbResult γ} {E : Stop → Prop}
    {Q : γ → α → Catalog → Prop} (h : Exec.Matches m s.1.workingCatalog spec E Q) :
    Exec.Matches (onCatalog m) s spec E fun c a t => Q c a t.1.workingCatalog := by
  refine Exec.Ensures.imp (onCatalog_ensures h) ?_
  rintro a t ⟨c, hQ, rfl⟩
  exact hQ

theorem onCatalog_of_failsIn {α : Type} {m : Db Catalog α} {E : Stop → Prop}
    (hsame : Exec.Preserves Catalog.SameRegister m) (hfails : FailsIn E (m s.1.workingCatalog).1) :
    Exec.Ensures (onCatalog m) s E fun _ t => SameRegister s t := by
  have hensures : Exec.Ensures m s.1.workingCatalog E fun _ _ => True := by
    rcases hm : m s.1.workingCatalog with ⟨stop | a, c⟩
    · rw [hm] at hfails
      exact Exec.Ensures.of_error hm (hfails stop rfl)
    · exact Exec.Ensures.of_ok hm trivial
  refine ((onCatalog_ensures hensures).and_rel (onCatalog_sameRegister hsame)).imp ?_
  exact fun _ _ h => h.2

/-- A table is created unless its definition does not pass the checks. -/
theorem createTable_matches (h : tx.state = .active) (name : String) (columns : List ColumnDef) :
    Exec.Matches (createTable name columns) (tx, d) (tx.workingCatalog.tableCheck name columns)
      Stop.OfStorage fun _ _ _ => True := by
  refine Exec.Matches.bind_after (ensureActive_step h ?_)
  refine Exec.Matches.finish ((onCatalog_matches
    (Catalog.createTableMetadata_matches name columns)).imp ?_)
  rintro - ⟨relationId, pageId⟩ t - -
  refine Exec.Ensures.bind (Exec.Ensures.modify ?_)
  refine Exec.Ensures.bind ((markCatalogDirty_ensures_same _).imp fun _ _ _ => ?_)
  exact Exec.Ensures.pure trivial

theorem storeNode_ofStorage (pageId : PageId) (node : BTreeNode) : Exec.LeavesIn Stop.OfStorage
    (storeNode pageId node : Db (Transaction FileId × Disk) Unit) := by
  refine (Exec.LeavesIn.liftM (nodeToPage_ofStorage pageId node)).bind fun page => ?_
  exact (Exec.LeavesIn.liftM (Page.header_ofStorage page)).bind fun _ => Exec.LeavesIn.modify _

theorem createIndex_matches (h : tx.state = .active) (name : String) (tableId : RelationId)
    (columnName : String) :
    Exec.Matches (createIndex name tableId columnName) (tx, d)
      (tx.workingCatalog.indexCheck name tableId columnName) Stop.OfStorage fun _ _ _ => True := by
  refine Exec.Matches.bind_after (ensureActive_step h ?_)
  refine Exec.Matches.finish ((onCatalog_matches
    (Catalog.createIndexMetadata_matches name tableId columnName)).imp ?_)
  rintro - ⟨relationId, pageId⟩ t - -
  refine Exec.Ensures.bind (((storeNode_ofStorage _ _).ensures t).imp fun _ u _ => ?_)
  refine Exec.Ensures.bind ((markCatalogDirty_ensures_same u).imp fun _ _ _ => ?_)
  exact Exec.Ensures.pure trivial

theorem registerExtension_matches (h : tx.state = .active) (name : String) (abiVersion : UInt32)
    (kind : String) :
    Exec.Matches (registerExtension name abiVersion kind) (tx, d)
      (tx.workingCatalog.extensionCheck name abiVersion kind) Stop.OfStorage fun _ _ t =>
        t.1.workingCatalog = { tx.workingCatalog with
          extensions := tx.workingCatalog.withExtension name abiVersion kind } := by
  refine Exec.Matches.bind_after (ensureActive_step h ?_)
  refine Exec.Matches.finish ((onCatalog_matches
    (Catalog.registerExtensionMetadata_matches name abiVersion kind)).imp ?_)
  intro _ inserted t _ ht
  cases inserted with
  | false => exact Exec.Ensures.pure ht
  | true =>
      refine Exec.Ensures.bind ((markCatalogDirty_ensures_same t).imp fun _ u hu => ?_)
      refine Exec.Ensures.pure ?_
      rw [show u.1.workingCatalog = t.1.workingCatalog from hu]
      exact ht

/-- A row is inserted unless the relation is no table. -/
theorem insertRow_matches (h : tx.state = .active) (relationId : RelationId) (bytes : List UInt8) :
    Exec.Matches (insertRow relationId bytes) (tx, d)
      (tx.workingCatalog.ensureHeapRelation relationId) Stop.OfStorage fun _ _ t =>
        SameRegister (tx, d) t := by
  refine Exec.Matches.bind_after (ensureActive_step h ?_)
  refine Exec.Matches.bind_after (Exec.Ensures.of_ok (current_apply _) ?_)
  refine Exec.Matches.last fun _ hheap => ?_
  obtain ⟨relation, hfind, hkind⟩ := Catalog.ensureHeapRelation_eq_ok hheap
  refine Exec.Ensures.bind (Exec.Ensures.of_ok (t := (tx, d)) (a := relation.heapPages) ?_ ?_)
  · rw [Catalog.heapPages_of_relation hfind]
    rfl
  refine Exec.Ensures.bind ((insertIntoPages_ensures_same bytes relation.heapPages (tx, d)).imp ?_)
  intro placed t ht
  cases placed with
  | some rowId => exact Exec.Ensures.pure ht.sameRegister
  | none =>
      have hallocate : Exec.Ensures (onCatalog Catalog.allocatePageId) t Stop.OfStorage fun _ u =>
          t.1.workingCatalog.SameRelations u.1.workingCatalog := by
        have hleaves : Exec.LeavesIn Stop.OfStorage
            (onCatalog Catalog.allocatePageId : Db (Transaction FileId × Disk) _) :=
          Catalog.allocatePageId_ofStorage.zoom _ _
        rcases hrun : onCatalog Catalog.allocatePageId t with ⟨stop | pageId, u⟩
        · exact Exec.Ensures.of_error hrun ((hleaves.ensures t).error hrun)
        · obtain ⟨c, hallocate, rfl⟩ := onCatalog_eq_ok.1 hrun
          exact Exec.Ensures.of_ok hrun (Catalog.allocatePageId_sameRelations.rel hallocate)
      refine Exec.Ensures.bind (hallocate.imp fun pageId u hu => ?_)
      have hfind' : u.1.workingCatalog.relationById relationId = some relation := by
        rw [Catalog.relationById, hu.relations, show t.1.workingCatalog = tx.workingCatalog from ht]
        exact hfind
      refine Exec.Ensures.bind (Exec.Ensures.liftM (fun placed _ => ?_)
        ((Page.insertRecord_ofStorage bytes).toExcept _))
      refine Exec.Ensures.bind ((onCatalog_of_failsIn (Catalog.appendHeapPage_sameRegister _ _)
        (Catalog.appendHeapPage_ofStorage hfind' hkind pageId)).imp fun _ v hv => ?_)
      refine Exec.Ensures.bind (Exec.Ensures.modify ?_)
      refine Exec.Ensures.bind ((markCatalogDirty_ensures_same _).imp fun _ _ hw => ?_)
      refine Exec.Ensures.pure (trans_of SameRegister ht.sameRegister ?_)
      exact trans_of SameRegister hu.sameRegister (trans_of SameRegister hv hw.sameRegister)

/-- A commit that returns hands the working catalog over. -/
theorem commit_catalog {tx' : Transaction FileId} {e : Disk} (h : tx.state = .active)
    (hrun : commit (tx, d) = (.ok (), (tx', e))) : tx'.drop.store.catalog = tx.workingCatalog := by
  rw [commit_eq h] at hrun
  rcases hlog : logCommit tx.txId tx.stagedPages (tx.manager.wal, d) with ⟨stop | ⟨⟩, w, f⟩
  · rw [hlog] at hrun
    cases hrun
  rcases hwrite : writePages tx.manager.store.pageFile tx.stagedPages f with ⟨stop | ⟨⟩, f'⟩
  · rw [hlog] at hrun
    simp only [hwrite] at hrun
    cases hrun
  · rw [hlog] at hrun
    simp only [hwrite] at hrun
    cases hrun
    rfl

/-! ## Index entries -/

theorem failsInStorage : lawful.FailsIn Stop.OfStorage fun _ => True where
  store := fun {s page header} _ _ => by
    have hleaves : Exec.LeavesIn Stop.OfStorage
        (BPlusTreePageStore.storePage page : Db (Transaction FileId × Disk) Unit) :=
      (Exec.LeavesIn.liftM (Page.header_ofStorage page)).bind fun _ => Exec.LeavesIn.modify _
    exact hleaves.ensures s
  allocate := fun {s} _ => by
    have hleaves : Exec.LeavesIn Stop.OfStorage
        (BPlusTreePageStore.allocatePage : Db (Transaction FileId × Disk) PageId) :=
      Catalog.allocatePageId_ofStorage.zoom _ _
    exact hleaves.ensures s
  node := fun _ h => nodeToPage_ofStorage _ _ _ h

/-- An entry is inserted into an index that is there. -/
theorem insertIndexEntry_ofStorage (h : Laid (tx, d) held) {fuel : Nat} (hfuel : 2 ^ 64 ≤ fuel)
    {indexRelationId : RelationId} {root : PageId}
    (hroot : tx.workingCatalog.indexRoot indexRelationId = .ok root) (key : IndexKey) (rowId : RowId) :
    Exec.Ensures (insertIndexEntry fuel indexRelationId key rowId) (tx, d) Stop.OfStorage fun _ t =>
      SameRegister (tx, d) t := by
  refine Exec.Ensures.bind (ensureActive_step h.active ?_)
  refine Exec.Ensures.bind (Exec.Ensures.of_ok (current_apply _) ?_)
  refine Exec.Ensures.bind (Exec.Ensures.of_ok (t := (tx, d)) (a := root) ?_ ?_)
  · rw [hroot]
    rfl
  obtain ⟨front, back, before, after, name, columns, storage, ids, entries, hrelations, rfl, hlength,
    rfl, htree, hfront⟩ := h.index hroot
  have hinsert : Exec.Ensures (insert fuel storage.rootPageId key rowId) (tx, d) Stop.OfStorage
      fun _ _ => True := by
    have hids : ids.length ≤ tx.workingCatalog.nextPageId.toNat :=
      Catalog.length_le_of_allocated htree.nodup htree.used
    obtain ⟨height, leaves, hsubtree, -, -⟩ := htree.tree
    have hheight : height < fuel := by
      have hlt := Subtree.height_lt hsubtree
      have hnext := tx.workingCatalog.nextPageId.toNat_lt
      omega
    exact insert_ensures_height failsInStorage hsubtree (labelled_true hsubtree) htree.nodup
      htree.used h.good hheight trivial rowId
  refine Exec.Ensures.bind ((hinsert.and_rel
    (insert_preserves accessesPreserve_sameRelations _ _ _ _)).imp ?_)
  rintro newRoot t ⟨-, hsame⟩
  have hregister : SameRegister (tx, d) t := Catalog.SameRelations.sameRegister hsame
  split
  · have hrelations' : t.1.workingCatalog.relations =
        front ++ ⟨indexRelationId, name, .index, .bPlusTree storage, columns⟩ :: back :=
      hsame.relations.trans hrelations
    have hset := Catalog.setIndexRootPage_of_split newRoot hrelations' rfl hfront rfl rfl
    refine Exec.Ensures.bind ((onCatalog_of_failsIn (Catalog.setIndexRootPage_sameRegister _ _)
      ?_).imp fun _ u hu => ?_)
    · rw [hset]
      exact FailsIn.ok ()
    · refine (markCatalogDirty_ensures_same u).imp fun _ _ hv => ?_
      exact trans_of SameRegister hregister (trans_of SameRegister hu hv.sameRegister)
  · exact (markCatalogDirty_ensures_same t).imp fun _ _ hu =>
      trans_of SameRegister hregister hu.sameRegister

end Transaction

/-! ## Transactions as a whole -/

namespace TransactionalStore

variable {records : List WalRecord} {store : TransactionalStore FileId} {d : Disk} {db : Database}

/-- Calls in a transaction of their own match what they match on the working catalog, and the
catalog that they leave is committed. -/
theorem Holds.withTransaction_matches {α β γ : Type} {m : Db (Transaction FileId × Disk) α}
    {k : α → β} {spec : DbResult γ} {Q : γ → β → Catalog → Prop} (h : Holds records (store, d) db)
    (hfree : store.activeWriter = false) (hstaging : Exec.Preserves Transaction.Staging m)
    (hm : ∀ tx e, tx.workingCatalog = store.store.catalog → Transaction.Holds (tx, e) db →
      Exec.Matches m (tx, e) spec Stop.OfStorage fun c a t => Q c (k a) t.1.workingCatalog) :
    Exec.Matches (TransactionalStore.withTransaction (do
      let a ← m
      Transaction.commit
      return k a)) (store, d) spec Stop.OfStorage fun c b t => Q c b t.1.store.catalog := by
  obtain ⟨held, hcommitted, hshows⟩ := h
  rcases begin_logged hcommitted.log hfree with ⟨w, e, hbegin, hlogged⟩ | ⟨message, store₁, hbegin, -⟩
  swap
  · have hstop := begin_ofStorage (s := (store, d)) hfree
    rw [hbegin] at hstop
    refine Exec.Matches.of_error (t := (store₁, d)) ?_ (Or.inr (hstop _ rfl))
    rw [TransactionalStore.withTransaction, hbegin]
  obtain ⟨new, hkept, -⟩ : ∃ new, Committed (records ++ new) (store.advanced w true) e held ∧
      kindsOf new = _ := hcommitted.logged rfl hlogged
  have hmatches := hm (store.started w) e rfl ⟨held, hkept.started, hshows⟩
  rcases hbody : m (store.started w, e) with ⟨stop | a, tx, f⟩
  · refine Exec.Matches.of_error (t := (tx.drop, f)) ?_ (hmatches.error hbody)
    rw [withTransaction_of_begin hbegin, Exec.bind_of_error hbody]
  obtain ⟨c, hspec, hQ⟩ := hmatches.ok hbody
  have hactive : tx.state = .active := (hstaging.rel hbody).state
  have hcommit := Transaction.commit_ofStorage (s := (tx, f)) hactive
  rcases hrun : Transaction.commit (tx, f) with ⟨stop | ⟨⟩, tx', f'⟩
  · rw [hrun] at hcommit
    refine Exec.Matches.of_error (t := (tx'.drop, f')) ?_ (Or.inr (hcommit stop rfl))
    rw [withTransaction_of_begin hbegin, Exec.bind_of_ok hbody, Exec.bind_of_error hrun]
  · refine Exec.Matches.of_ok (a := k a) (t := (tx'.drop, f')) (c := c) ?_ hspec ?_
    · rw [withTransaction_of_begin hbegin, Exec.bind_of_ok hbody, Exec.bind_of_ok hrun]
      rfl
    · change Q c (k a) tx'.drop.store.catalog
      rw [Transaction.commit_catalog hactive hrun]
      exact hQ

end TransactionalStore

end Rdbms
