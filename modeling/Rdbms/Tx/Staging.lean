import Rdbms.Vfs.Pages
import Rdbms.Tx.Session
import Rdbms.Catalog.Heaps
import Rdbms.Index.Node

/-!
# Staging

Every operation inside a transaction works on the transaction alone: it may read
the disk, but the files, the manager and the identity of the transaction stay as
they are. All pages it stages are valid pages under their own ids.
-/

namespace Rdbms

open Library Disk

/-! ## The index algorithm over an arbitrary relation -/

section Index

variable {S : Type} [BPlusTreePageStore S] {R : S → S → Prop} [IsPreorder S R]

/-- The relation holds for every page access of the algorithm. -/
structure AccessesPreserve (R : S → S → Prop) : Prop where
  load : ∀ id, Exec.Preserves R (BPlusTreePageStore.loadPage id)
  store : ∀ {id node page}, nodeToPage id node = .ok page →
    Exec.Preserves R (BPlusTreePageStore.storePage page)
  allocate : Exec.Preserves R BPlusTreePageStore.allocatePage

/-- What an insertion does with the node that it has loaded. -/
theorem loaded_preserves {fuel : Nat} {pageId : PageId} {key : IndexKey} {rowId : RowId}
    (hleaf : ∀ next entries, Exec.Preserves R (storeLeaf pageId next entries))
    (hinternal : ∀ keys children, Exec.Preserves R (storeInternal pageId keys children))
    (hbelow : ∀ child, Exec.Preserves R (insertRecursive fuel child key rowId)) (node : BTreeNode) :
    Exec.Preserves R (match node with
      | .leaf nextLeaf entries => storeLeaf pageId nextLeaf (insertLeafEntry entries key rowId)
      | .internal keys children => do
          validateInternalShape keys children
          let childIndex := childIndexForKey keys key
          let childPageId ← DbResult.index children childIndex
          let split ← insertRecursive fuel childPageId key rowId
          match split with
          | some split =>
              storeInternal pageId (keys.insertIdx childIndex split.separator)
                (children.insertIdx (childIndex + 1) split.rightPageId)
          | none => return none : Db S (Option SplitResult)) := by
  cases node with
  | leaf next entries => exact hleaf _ _
  | internal keys children =>
      refine Exec.Preserves.bind (Exec.Preserves.liftM _) fun _ => ?_
      refine Exec.Preserves.bind (Exec.Preserves.liftM _) fun child => ?_
      refine Exec.Preserves.bind (hbelow child) fun split => ?_
      cases split with
      | none => exact Exec.Preserves.pure _
      | some split => exact hinternal _ _

variable (h : AccessesPreserve R)
include h

theorem loadNode_preserves (id : PageId) : Exec.Preserves R (loadNode id) :=
  Exec.Preserves.bind (h.load id) fun _ => Exec.Preserves.liftM _

theorem storeNode_preserves (id : PageId) (node : BTreeNode) :
    Exec.Preserves R (storeNode id node) := by
  intro s
  cases hpage : nodeToPage id node with
  | error e =>
      have hrun : storeNode id node s = (.error e, s) := by
        rw [storeNode, hpage]
        exact Exec.bind_of_error rfl
      rw [hrun]
      exact refl_of R s
  | ok page =>
      have hrun : storeNode id node s = BPlusTreePageStore.storePage page s := by
        rw [storeNode, hpage]
        exact Exec.bind_of_ok rfl
      rw [hrun]
      exact h.store hpage s

theorem storeLeaf_preserves (id : PageId) (next : Option PageId) (entries : List IndexEntry) :
    Exec.Preserves R (storeLeaf id next entries) := by
  unfold storeLeaf
  split
  · exact Exec.Preserves.bind (storeNode_preserves h _ _) fun _ => Exec.Preserves.pure _
  · refine Exec.Preserves.bind h.allocate fun right => ?_
    refine Exec.Preserves.bind (Exec.Preserves.liftM _) fun first => ?_
    refine Exec.Preserves.bind (storeNode_preserves h _ _) fun _ => ?_
    exact Exec.Preserves.bind (storeNode_preserves h _ _) fun _ => Exec.Preserves.pure _

theorem storeInternal_preserves (id : PageId) (keys : List IndexKey) (children : List PageId) :
    Exec.Preserves R (storeInternal id keys children) := by
  unfold storeInternal
  split
  · exact Exec.Preserves.bind (storeNode_preserves h _ _) fun _ => Exec.Preserves.pure _
  · refine Exec.Preserves.bind (Exec.Preserves.liftM _) fun separator => ?_
    refine Exec.Preserves.bind h.allocate fun right => ?_
    refine Exec.Preserves.bind (storeNode_preserves h _ _) fun _ => ?_
    exact Exec.Preserves.bind (storeNode_preserves h _ _) fun _ => Exec.Preserves.pure _

theorem insertRecursive_preserves (fuel : Nat) (id : PageId) (key : IndexKey) (rowId : RowId) :
    Exec.Preserves R (insertRecursive fuel id key rowId) := by
  induction fuel generalizing id with
  | zero => exact Exec.Preserves.fail _
  | succ fuel ih =>
      refine Exec.Preserves.bind (loadNode_preserves h id) ?_
      exact loaded_preserves (storeLeaf_preserves h id) (storeInternal_preserves h id) ih

theorem insert_preserves (fuel : Nat) (root : PageId) (key : IndexKey) (rowId : RowId) :
    Exec.Preserves R (insert fuel root key rowId) := by
  refine Exec.Preserves.bind (insertRecursive_preserves h fuel root key rowId) fun split => ?_
  cases split with
  | none => exact Exec.Preserves.pure _
  | some split =>
      refine Exec.Preserves.bind h.allocate fun newRoot => ?_
      exact Exec.Preserves.bind (storeNode_preserves h _ _) fun _ => Exec.Preserves.pure _

theorem findLeaf_preserves (fuel : Nat) (id : PageId) (key : IndexKey) :
    Exec.Preserves R (findLeaf fuel id key) := by
  induction fuel generalizing id with
  | zero => exact Exec.Preserves.fail _
  | succ fuel ih =>
      refine Exec.Preserves.bind (loadNode_preserves h id) fun node => ?_
      cases node with
      | leaf next entries => exact Exec.Preserves.pure _
      | internal keys children =>
          refine Exec.Preserves.bind (Exec.Preserves.liftM _) fun _ => ?_
          exact Exec.Preserves.bind (Exec.Preserves.liftM _) fun child => ih child

theorem scanLeaves_preserves (fuel : Nat) (id : PageId) (key : IndexKey) :
    Exec.Preserves R (scanLeaves fuel id key) := by
  induction fuel generalizing id with
  | zero => exact Exec.Preserves.fail _
  | succ fuel ih =>
      refine Exec.Preserves.bind (loadNode_preserves h id) fun node => ?_
      cases node with
      | internal keys children => exact Exec.Preserves.liftM _
      | leaf next entries =>
          simp only
          split
          · exact Exec.Preserves.pure _
          · cases next with
            | none => exact Exec.Preserves.pure _
            | some next => exact Exec.Preserves.bind (ih next) fun _ => Exec.Preserves.pure _

theorem lookup_preserves (fuel : Nat) (root : PageId) (key : IndexKey) :
    Exec.Preserves R (lookup fuel root key) :=
  Exec.Preserves.bind (findLeaf_preserves h fuel root key) fun leaf =>
    scanLeaves_preserves h fuel leaf key

end Index

/-- The handle stays as it is and the disk is only looked at. -/
structure Looking {H : Type} (s t : H × Disk) : Prop where
  handle : t.1 = s.1
  disk : OnlyReads s.2 t.2

instance {H : Type} : IsPreorder (H × Disk) Looking where
  refl s := ⟨rfl, OnlyReads.refl s.2⟩
  trans _ _ _ h h' := ⟨h'.handle.trans h.handle, h.disk.trans h'.disk⟩

/-! ## Operations of a transaction -/

namespace Transaction

/-- Every staged page is a valid page under its own id. -/
def StagedValid (tx : Transaction FileId) : Prop :=
  ∀ (id : PageId) (page : Page), tx.dirtyPages[id]? = some page →
    page.ValidAs id

/-- What happens to the transaction and the disk inside an operation. -/
structure Staging (s t : Transaction FileId × Disk) : Prop where
  manager : t.1.manager = s.1.manager
  txId : t.1.txId = s.1.txId
  state : t.1.state = s.1.state
  disk : OnlyReads s.2 t.2
  staged : s.1.StagedValid → t.1.StagedValid
  heaps : s.1.workingCatalog.KeepsHeaps t.1.workingCatalog

instance : IsPreorder (Transaction FileId × Disk) Staging where
  refl s := ⟨rfl, rfl, rfl, OnlyReads.refl s.2, id, id⟩
  trans _ _ _ h h' := ⟨h'.manager.trans h.manager, h'.txId.trans h.txId, h'.state.trans h.state,
    h.disk.trans h'.disk, fun hs => h'.staged (h.staged hs), fun hs => h'.heaps (h.heaps hs)⟩

theorem onCatalog_staging {α : Type} {m : Db Catalog α} (h : Exec.Preserves Catalog.KeepsHeaps m) :
    Exec.Preserves Staging (onCatalog m) :=
  fun s => ⟨rfl, rfl, rfl, OnlyReads.refl s.2, id, h s.1.workingCatalog⟩

theorem stagedValid_insert {tx : Transaction FileId} {pageId : PageId} {page : Page}
    (htx : tx.StagedValid) (hpage : page.ValidAs pageId) :
    StagedValid { tx with dirtyPages := tx.dirtyPages.insert pageId page } := by
  intro id p hp
  simp only [Std.TreeMap.getElem?_insert] at hp
  split at hp
  · rename_i heq
    cases hp
    rw [← Std.LawfulEqOrd.eq_of_compare heq]
    exact hpage
  · exact htx id p hp

theorem stage_staging {pageId : PageId} {page : Page}
    (hpage : page.ValidAs pageId) :
    Exec.Preserves Staging (stage pageId page) :=
  fun s => ⟨rfl, rfl, rfl, OnlyReads.refl s.2, fun hs => stagedValid_insert hs hpage, id⟩

theorem current_staging : Exec.Preserves Staging (current : Db (Transaction FileId × Disk) _) :=
  Exec.Preserves.bind Exec.Preserves.get fun _ => Exec.Preserves.pure _

theorem ensureActive_staging :
    Exec.Preserves Staging (ensureActive : Db (Transaction FileId × Disk) _) :=
  Exec.Preserves.bind current_staging fun _ => Exec.Preserves.liftM _

theorem onWorld_staging {α : Type} {m : Db Disk α} (h : Exec.Preserves OnlyReads m) :
    Exec.Preserves Staging (onWorld m) := fun s => ⟨rfl, rfl, rfl, h s.2, id, id⟩

theorem loadPage_staging (pageId : PageId) :
    Exec.Preserves Staging (loadPage pageId : Db (Transaction FileId × Disk) _) := by
  refine Exec.Preserves.bind current_staging fun tx => ?_
  cases tx.dirtyPages[pageId]? with
  | some page => exact Exec.Preserves.pure page
  | none => exact onWorld_staging (readPage_onlyReads _ _)

/-- A page is loaded from the map of staged pages or from the data file. -/
theorem loadPage_apply (pageId : PageId) (s : Transaction FileId × Disk) :
    loadPage pageId s =
      match s.1.dirtyPages[pageId]? with
      | some page => (.ok page, s)
      | none => Exec.onRight (s.1.manager.store.pageFile.readPage pageId) s := by
  have hcurrent : current s = (.ok s.1, s) := rfl
  rw [loadPage, Exec.bind_of_ok hcurrent]
  cases hget : s.1.dirtyPages[pageId]? with
  | some page => rfl
  | none => rfl

theorem loadPage_eq_tx {pageId : PageId} {s t : Transaction FileId × Disk} {r : DbResult Page}
    (h : loadPage pageId s = (r, t)) : t.1 = s.1 := by
  rw [loadPage_apply] at h
  split at h
  · cases h
    rfl
  · cases h
    rfl

/-- A loaded page is a valid page under its own id. -/
theorem loadPage_validAs {pageId : PageId} {s t : Transaction FileId × Disk} {page : Page}
    (hs : s.1.StagedValid) (h : loadPage pageId s = (.ok page, t)) : page.ValidAs pageId := by
  rw [loadPage_apply] at h
  cases hget : s.1.dirtyPages[pageId]? with
  | some page' =>
      rw [hget] at h
      cases h
      exact hs pageId page hget
  | none =>
      rw [hget] at h
      have hread : (s.1.manager.store.pageFile.readPage pageId s.2).1 = .ok page :=
        congrArg Prod.fst h
      exact readPage_eq_ok (Prod.ext hread rfl)

theorem insertRecord_validAs {pageId : PageId} {bytes : List UInt8} {page page' : Page}
    {slotId : SlotId} (hpage : page.ValidAs pageId)
    (h : Page.insertRecord bytes page = (.ok slotId, page')) : page'.ValidAs pageId := by
  obtain ⟨header, hvalid, hid⟩ := hpage
  rcases Page.insertRecord_spec hvalid bytes with ⟨message, hfail⟩ | ⟨i, q, k, hok, hins⟩
  · rw [hfail] at h
    cases h
  · rw [hok] at h
    cases h
    exact ⟨k, hins.valid, hins.pageId.trans hid⟩

theorem markCatalogDirty_staging :
    Exec.Preserves Staging (markCatalogDirty : Db (Transaction FileId × Disk) _) := by
  refine Exec.Preserves.bind current_staging fun tx => ?_
  intro s
  refine Exec.rel_bind (refl_of Staging s) ?_
  intro page t h
  obtain ⟨hpage, -⟩ := Exec.liftM_eq_ok.1 h
  exact stage_staging (Catalog.toPage_validAs hpage) t

theorem accessesPreserve_staging : AccessesPreserve (S := Transaction FileId × Disk) Staging where
  load := loadPage_staging
  store {id node page} hpage := by
    intro s
    refine Exec.rel_bind (refl_of Staging s) ?_
    intro header t h
    obtain ⟨hheader, -⟩ := Exec.liftM_eq_ok.1 h
    obtain ⟨header', hvalid, -⟩ := (nodeToPage_eq_ok hpage).valid
    have hsame := hvalid.toShape.unique ((Page.header_eq_ok_iff _ _).1 hheader)
    exact stage_staging ⟨header', hvalid, by rw [hsame]⟩ t
  allocate := onCatalog_staging Catalog.allocatePageId_keepsHeaps

theorem registerExtension_staging (name : String) (abiVersion : UInt32) (kind : String) :
    Exec.Preserves Staging
      (registerExtension name abiVersion kind : Db (Transaction FileId × Disk) _) := by
  refine Exec.Preserves.bind ensureActive_staging fun _ => ?_
  refine Exec.Preserves.bind (onCatalog_staging
    (Catalog.registerExtensionMetadata_keepsHeaps name abiVersion kind)) fun inserted => ?_
  cases inserted with
  | true => exact Exec.Preserves.bind markCatalogDirty_staging fun _ => Exec.Preserves.pure _
  | false => exact Exec.Preserves.pure _

theorem createTable_staging (name : String) (columns : List ColumnDef) :
    Exec.Preserves Staging (createTable name columns : Db (Transaction FileId × Disk) _) := by
  refine Exec.Preserves.bind ensureActive_staging fun _ => ?_
  refine Exec.Preserves.bind (onCatalog_staging
    (Catalog.createTableMetadata_keepsHeaps name columns)) fun created => ?_
  refine Exec.Preserves.bind (stage_staging ⟨_, Page.new_valid _ _, rfl⟩) fun _ => ?_
  exact Exec.Preserves.bind markCatalogDirty_staging fun _ => Exec.Preserves.pure _

theorem createIndex_staging (name : String) (tableId : RelationId) (columnName : String) :
    Exec.Preserves Staging
      (createIndex name tableId columnName : Db (Transaction FileId × Disk) _) := by
  refine Exec.Preserves.bind ensureActive_staging fun _ => ?_
  refine Exec.Preserves.bind (onCatalog_staging
    (Catalog.createIndexMetadata_keepsHeaps name tableId columnName)) fun created => ?_
  refine Exec.Preserves.bind (storeNode_preserves accessesPreserve_staging _ _) fun _ => ?_
  exact Exec.Preserves.bind markCatalogDirty_staging fun _ => Exec.Preserves.pure _

theorem insertIndexEntry_staging (fuel : Nat) (indexRelationId : RelationId) (key : IndexKey)
    (rowId : RowId) : Exec.Preserves Staging
      (insertIndexEntry fuel indexRelationId key rowId : Db (Transaction FileId × Disk) _) := by
  refine Exec.Preserves.bind ensureActive_staging fun _ => ?_
  refine Exec.Preserves.bind current_staging fun tx => ?_
  refine Exec.Preserves.bind (Exec.Preserves.liftM _) fun root => ?_
  refine Exec.Preserves.bind (insert_preserves accessesPreserve_staging _ _ _ _) fun newRoot => ?_
  split
  · exact Exec.Preserves.bind (onCatalog_staging
      (Catalog.setIndexRootPage_keepsHeaps indexRelationId newRoot)) fun _ => markCatalogDirty_staging
  · exact markCatalogDirty_staging

/-- The pages are loaded one after the other, and the first that takes the record is staged. -/
theorem insertIntoPages_preserves {R : Transaction FileId × Disk → Transaction FileId × Disk → Prop}
    [IsPreorder (Transaction FileId × Disk) R] {bytes : List UInt8} {pageIds : List PageId}
    (hload : ∀ pageId, Exec.Preserves R (loadPage pageId))
    (hstage : ∀ {pageId s page t slotId page'}, pageId ∈ pageIds → loadPage pageId s = (.ok page, t) →
      Page.insertRecord bytes page = (.ok slotId, page') → R t (stage pageId page' t).2) :
    Exec.Preserves R (insertIntoPages bytes pageIds : Db (Transaction FileId × Disk) _) := by
  induction pageIds with
  | nil => exact Exec.Preserves.pure _
  | cons pageId pageIds ih =>
      intro s
      refine Exec.rel_bind (hload pageId s) ?_
      intro page t hloaded
      rcases hinsert : Page.insertRecord bytes page with ⟨stop | slotId, page'⟩
      · cases stop with
        | error e =>
            cases e with
            | user message => exact ih (fun hmem => hstage (List.mem_cons_of_mem _ hmem)) t
            | retryable message => exact refl_of R t
            | io kind => exact refl_of R t
            | corruption message => exact refl_of R t
            | internalInvariant message => exact refl_of R t
            | extension message => exact refl_of R t
        | panicked => exact refl_of R t
        | aborted => exact refl_of R t
        | outOfFuel => exact refl_of R t
      · exact hstage List.mem_cons_self hloaded hinsert

theorem insertIntoPages_staging (bytes : List UInt8) (pageIds : List PageId) :
    Exec.Preserves Staging (insertIntoPages bytes pageIds : Db (Transaction FileId × Disk) _) := by
  refine insertIntoPages_preserves loadPage_staging ?_
  intro pageId s page t slotId page' _ hload hinsert
  refine ⟨rfl, rfl, rfl, OnlyReads.refl t.2, ?_, id⟩
  intro ht
  have hs : s.1.StagedValid := by rwa [loadPage_eq_tx hload] at ht
  exact stagedValid_insert ht (insertRecord_validAs (loadPage_validAs hs hload) hinsert)

theorem insertRow_staging (relationId : RelationId) (bytes : List UInt8) :
    Exec.Preserves Staging (insertRow relationId bytes : Db (Transaction FileId × Disk) _) := by
  refine Exec.Preserves.bind ensureActive_staging fun _ => ?_
  refine Exec.Preserves.bind current_staging fun tx => ?_
  refine Exec.Preserves.bind (Exec.Preserves.liftM _) fun _ => ?_
  refine Exec.Preserves.bind (Exec.Preserves.liftM _) fun pageIds => ?_
  refine Exec.Preserves.bind (insertIntoPages_staging bytes pageIds) fun placed => ?_
  cases placed with
  | some rowId => exact Exec.Preserves.pure _
  | none =>
      refine Exec.Preserves.bind (onCatalog_staging Catalog.allocatePageId_keepsHeaps) fun pageId => ?_
      intro s
      refine Exec.rel_bind (refl_of Staging s) ?_
      intro placed t h
      obtain ⟨slotId, page⟩ := placed
      obtain ⟨hinsert, -⟩ := Exec.liftM_eq_ok.1 h
      have hpage : page.ValidAs pageId :=
        insertRecord_validAs ⟨_, Page.new_valid pageId .heap, rfl⟩ (Exec.toExcept_eq_ok.1 hinsert)
      refine Exec.Preserves.bind (onCatalog_staging
        (Catalog.appendHeapPage_keepsHeaps relationId pageId)) (fun _ => ?_) t
      refine Exec.Preserves.bind (stage_staging hpage) fun _ => ?_
      exact Exec.Preserves.bind markCatalogDirty_staging fun _ => Exec.Preserves.pure _

theorem scanHeap_preserves {σ : Type} {R : σ → σ → Prop} [IsPreorder σ R]
    {load : PageId → Db σ Page} (h : ∀ id, Exec.Preserves R (load id)) (pageIds : List PageId) :
    Exec.Preserves R (scanHeap load pageIds) := by
  induction pageIds with
  | nil => exact Exec.Preserves.pure _
  | cons pageId pageIds ih =>
      refine Exec.Preserves.bind (h pageId) fun page => ?_
      refine Exec.Preserves.bind (Exec.Preserves.liftM _) fun rows => ?_
      exact Exec.Preserves.bind ih fun rest => Exec.Preserves.pure _

theorem fullScan_staging (relationId : RelationId) :
    Exec.Preserves Staging (fullScan relationId : Db (Transaction FileId × Disk) _) := by
  refine Exec.Preserves.bind ensureActive_staging fun _ => ?_
  refine Exec.Preserves.bind current_staging fun tx => ?_
  refine Exec.Preserves.bind (Exec.Preserves.liftM _) fun _ => ?_
  refine Exec.Preserves.bind (Exec.Preserves.liftM _) fun pageIds => ?_
  exact scanHeap_preserves loadPage_staging pageIds

theorem loadPage_looking (pageId : PageId) :
    Exec.Preserves Looking (loadPage pageId : Db (Transaction FileId × Disk) _) := by
  intro s
  have hrun : loadPage pageId s = (_, _) := Prod.mk.eta.symm
  exact ⟨loadPage_eq_tx hrun, (loadPage_staging pageId s).disk⟩

/-- A scan inside a transaction leaves the transaction as it is. -/
theorem fullScan_looking (relationId : RelationId) :
    Exec.Preserves Looking
      (fullScan relationId : Db (Transaction FileId × Disk) _) := by
  have hcurrent : Exec.Preserves Looking (current : Db (Transaction FileId × Disk) _) :=
    Exec.Preserves.bind Exec.Preserves.get fun _ => Exec.Preserves.pure _
  refine Exec.Preserves.bind (Exec.Preserves.bind hcurrent fun _ => Exec.Preserves.liftM _)
    fun _ => ?_
  refine Exec.Preserves.bind hcurrent fun tx => ?_
  refine Exec.Preserves.bind (Exec.Preserves.liftM _) fun _ => ?_
  refine Exec.Preserves.bind (Exec.Preserves.liftM _) fun pageIds => ?_
  exact scanHeap_preserves loadPage_looking pageIds

end Transaction

/-! ## Reads of the idle store -/

namespace TransactionalStore

theorem fullScan_onlyReads (store : TransactionalStore FileId) (relationId : RelationId) :
    Exec.Preserves OnlyReads (store.fullScan relationId) := by
  refine Exec.Preserves.bind (Exec.Preserves.liftM _) fun _ => ?_
  refine Exec.Preserves.bind (Exec.Preserves.liftM _) fun pageIds => ?_
  exact Transaction.scanHeap_preserves (readPage_onlyReads _) pageIds

theorem readRow_onlyReads (store : TransactionalStore FileId) (relationId : RelationId)
    (rowId : RowId) : Exec.Preserves OnlyReads (store.readRow relationId rowId) := by
  refine Exec.Preserves.bind (Exec.Preserves.liftM _) fun _ => ?_
  refine Exec.Preserves.bind (Exec.Preserves.liftM _) fun pageIds => ?_
  refine Exec.Preserves.bind (Exec.Preserves.liftM _) fun _ => ?_
  refine Exec.Preserves.bind (readPage_onlyReads _ _) fun page => ?_
  refine Exec.Preserves.bind (Exec.Preserves.liftM _) fun header => ?_
  refine Exec.Preserves.bind (Exec.Preserves.liftM _) fun _ => ?_
  exact Exec.Preserves.bind (Exec.Preserves.liftM _) fun record => Exec.Preserves.pure _

theorem accessesPreserve_looking : AccessesPreserve (S := CatalogStore FileId × Disk) Looking where
  load id := Exec.Preserves.bind Exec.Preserves.get fun s t =>
    ⟨rfl, readPage_onlyReads s.1.pageFile id t.2⟩
  store _ := Exec.Preserves.lift _
  allocate := Exec.Preserves.lift _

theorem lookupIndex_looking (fuel : Nat) (indexRelationId : RelationId) (key : IndexKey) :
    Exec.Preserves Looking
      (lookupIndex fuel indexRelationId key : Db (TransactionalStore FileId × Disk) _) := by
  refine Exec.Preserves.bind Exec.Preserves.get fun s => ?_
  refine Exec.Preserves.bind (Exec.Preserves.liftM _) fun root => ?_
  intro t
  have h := lookup_preserves accessesPreserve_looking fuel root key (t.1.store, t.2)
  exact ⟨by rw [Exec.onPart_apply, h.handle], h.disk⟩

end TransactionalStore

end Rdbms
