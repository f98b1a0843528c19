import Rdbms.Tx.Autocommit
import Rdbms.Vfs.Stops

/-!
# Transactions on a machine that stops

Until the machine has stopped, the calls of a transaction give on its disk what they give on
the disk without faults, and stage the same pages. So does the log part of a commit.
-/

namespace Rdbms

open Library Disk

/-! ## The index algorithm over an arbitrary comparison -/

section Index

variable {S : Type} [BPlusTreePageStore S] {c : Comparison S}

/-- Every page access of the algorithm goes in lockstep. -/
structure AccessesLockstep (c : Comparison S) : Prop where
  load : ∀ id, Lockstep c (BPlusTreePageStore.loadPage id : Db S Page)
  store : ∀ page, Lockstep c (BPlusTreePageStore.storePage page : Db S Unit)
  allocate : Lockstep c (BPlusTreePageStore.allocatePage : Db S PageId)

variable (h : AccessesLockstep c)
include h

theorem loadNode_lockstep (id : PageId) : Lockstep c (loadNode id : Db S BTreeNode) :=
  Lockstep.bind (h.load id) fun _ => Lockstep.liftM _

theorem storeNode_lockstep (id : PageId) (node : BTreeNode) :
    Lockstep c (storeNode id node : Db S Unit) :=
  Lockstep.bind (Lockstep.liftM _) fun page => h.store page

theorem storeLeaf_lockstep (id : PageId) (next : Option PageId) (entries : List IndexEntry) :
    Lockstep c (storeLeaf id next entries : Db S (Option SplitResult)) := by
  unfold storeLeaf
  split
  · exact Lockstep.bind (storeNode_lockstep h _ _) fun _ => Lockstep.pure _
  · refine Lockstep.bind h.allocate fun right => ?_
    refine Lockstep.bind (Lockstep.liftM _) fun first => ?_
    refine Lockstep.bind (storeNode_lockstep h _ _) fun _ => ?_
    exact Lockstep.bind (storeNode_lockstep h _ _) fun _ => Lockstep.pure _

theorem storeInternal_lockstep (id : PageId) (keys : List IndexKey) (children : List PageId) :
    Lockstep c (storeInternal id keys children : Db S (Option SplitResult)) := by
  unfold storeInternal
  split
  · exact Lockstep.bind (storeNode_lockstep h _ _) fun _ => Lockstep.pure _
  · refine Lockstep.bind (Lockstep.liftM _) fun separator => ?_
    refine Lockstep.bind h.allocate fun right => ?_
    refine Lockstep.bind (storeNode_lockstep h _ _) fun _ => ?_
    exact Lockstep.bind (storeNode_lockstep h _ _) fun _ => Lockstep.pure _

theorem insertRecursive_lockstep (fuel : Nat) (id : PageId) (key : IndexKey) (rowId : RowId) :
    Lockstep c (insertRecursive fuel id key rowId : Db S (Option SplitResult)) := by
  induction fuel generalizing id with
  | zero => exact Lockstep.fail _
  | succ fuel ih =>
      refine Lockstep.bind (loadNode_lockstep h id) fun node => ?_
      cases node with
      | leaf next entries => exact storeLeaf_lockstep h _ _ _
      | internal keys children =>
          refine Lockstep.bind (Lockstep.liftM _) fun _ => ?_
          refine Lockstep.bind (Lockstep.liftM _) fun child => ?_
          refine Lockstep.bind (ih child) fun split => ?_
          cases split with
          | none => exact Lockstep.pure _
          | some split => exact storeInternal_lockstep h _ _ _

theorem insert_lockstep (fuel : Nat) (root : PageId) (key : IndexKey) (rowId : RowId) :
    Lockstep c (insert fuel root key rowId : Db S PageId) := by
  refine Lockstep.bind (insertRecursive_lockstep h fuel root key rowId) fun split => ?_
  cases split with
  | none => exact Lockstep.pure _
  | some split =>
      refine Lockstep.bind h.allocate fun newRoot => ?_
      exact Lockstep.bind (storeNode_lockstep h _ _) fun _ => Lockstep.pure _

theorem findLeaf_lockstep (fuel : Nat) (id : PageId) (key : IndexKey) :
    Lockstep c (findLeaf fuel id key : Db S PageId) := by
  induction fuel generalizing id with
  | zero => exact Lockstep.fail _
  | succ fuel ih =>
      refine Lockstep.bind (loadNode_lockstep h id) fun node => ?_
      cases node with
      | leaf next entries => exact Lockstep.pure _
      | internal keys children =>
          refine Lockstep.bind (Lockstep.liftM _) fun _ => ?_
          exact Lockstep.bind (Lockstep.liftM _) fun child => ih child

theorem scanLeaves_lockstep (fuel : Nat) (id : PageId) (key : IndexKey) :
    Lockstep c (scanLeaves fuel id key : Db S (List RowId)) := by
  induction fuel generalizing id with
  | zero => exact Lockstep.fail _
  | succ fuel ih =>
      refine Lockstep.bind (loadNode_lockstep h id) fun node => ?_
      cases node with
      | internal keys children => exact Lockstep.liftM _
      | leaf next entries =>
          dsimp only
          split
          · exact Lockstep.pure _
          · cases next with
            | none => exact Lockstep.pure _
            | some next => exact Lockstep.bind (ih next) fun _ => Lockstep.pure _

theorem lookup_lockstep (fuel : Nat) (root : PageId) (key : IndexKey) :
    Lockstep c (lookup fuel root key : Db S (List RowId)) :=
  Lockstep.bind (findLeaf_lockstep h fuel root key) fun leaf => scanLeaves_lockstep h fuel leaf key

end Index

theorem scanHeap_lockstep {S : Type} {c : Comparison S} {load : PageId → Db S Page}
    (h : ∀ id, Lockstep c (load id)) (pageIds : List PageId) :
    Lockstep c (scanHeap load pageIds) := by
  induction pageIds with
  | nil => exact Lockstep.pure _
  | cons pageId pageIds ih =>
      refine Lockstep.bind (h pageId) fun page => ?_
      refine Lockstep.bind (Lockstep.liftM _) fun rows => ?_
      exact Lockstep.bind ih fun rest => Lockstep.pure _

/-! ## Inside a transaction -/

/-- The comparison of transactions and of log writers on the two disks. -/
abbrev stoppingWith (H : Type) : Comparison (H × Disk) := stopping.beside H

namespace Transaction

theorem onCatalog_lockstep {α : Type} (m : Db Catalog α) :
    Lockstep (stoppingWith (Transaction FileId)) (onCatalog m) :=
  Lockstep.onLeft (fun tx => ((m tx.workingCatalog).1,
    { tx with workingCatalog := (m tx.workingCatalog).2 })) fun _ _ => rfl

theorem current_lockstep :
    Lockstep (stoppingWith (Transaction FileId)) (current : Db (Transaction FileId × Disk) _) :=
  Lockstep.onLeft (fun tx => (.ok tx, tx)) fun _ _ => rfl

theorem stage_lockstep (pageId : PageId) (page : Page) :
    Lockstep (stoppingWith (Transaction FileId)) (stage pageId page) :=
  Lockstep.onLeft (fun tx => (.ok (), { tx with dirtyPages := tx.dirtyPages.insert pageId page }))
    fun _ _ => rfl

theorem ensureActive_lockstep :
    Lockstep (stoppingWith (Transaction FileId)) (ensureActive : Db (Transaction FileId × Disk) _) :=
  Lockstep.bind current_lockstep fun _ => Lockstep.liftM _

theorem markCatalogDirty_lockstep : Lockstep (stoppingWith (Transaction FileId))
    (markCatalogDirty : Db (Transaction FileId × Disk) _) :=
  Lockstep.bind current_lockstep fun _ =>
    Lockstep.bind (Lockstep.liftM _) fun page => stage_lockstep catalogPageId page

theorem loadPage_lockstep (pageId : PageId) : Lockstep (stoppingWith (Transaction FileId))
    (loadPage pageId : Db (Transaction FileId × Disk) _) := by
  refine Lockstep.bind current_lockstep fun tx => ?_
  cases tx.dirtyPages[pageId]? with
  | some page => exact Lockstep.pure page
  | none => exact Lockstep.onRight (readPage_lockstep _ _)

theorem accessesLockstep :
    AccessesLockstep (S := Transaction FileId × Disk) (stoppingWith (Transaction FileId)) where
  load := loadPage_lockstep
  store _ := Lockstep.bind (Lockstep.liftM _) fun _ => stage_lockstep _ _
  allocate := onCatalog_lockstep _

theorem registerExtension_lockstep (name : String) (abiVersion : UInt32) (kind : String) :
    Lockstep (stoppingWith (Transaction FileId))
      (registerExtension name abiVersion kind : Db (Transaction FileId × Disk) _) := by
  refine Lockstep.bind ensureActive_lockstep fun _ => ?_
  refine Lockstep.bind (onCatalog_lockstep _) fun inserted => ?_
  cases inserted with
  | true => exact Lockstep.bind markCatalogDirty_lockstep fun _ => Lockstep.pure _
  | false => exact Lockstep.pure _

theorem createTable_lockstep (name : String) (columns : List ColumnDef) :
    Lockstep (stoppingWith (Transaction FileId))
      (createTable name columns : Db (Transaction FileId × Disk) _) := by
  refine Lockstep.bind ensureActive_lockstep fun _ => ?_
  refine Lockstep.bind (onCatalog_lockstep _) fun created => ?_
  refine Lockstep.bind (stage_lockstep _ _) fun _ => ?_
  exact Lockstep.bind markCatalogDirty_lockstep fun _ => Lockstep.pure _

theorem createIndex_lockstep (name : String) (tableId : RelationId) (columnName : String) :
    Lockstep (stoppingWith (Transaction FileId))
      (createIndex name tableId columnName : Db (Transaction FileId × Disk) _) := by
  refine Lockstep.bind ensureActive_lockstep fun _ => ?_
  refine Lockstep.bind (onCatalog_lockstep _) fun created => ?_
  refine Lockstep.bind (storeNode_lockstep accessesLockstep _ _) fun _ => ?_
  exact Lockstep.bind markCatalogDirty_lockstep fun _ => Lockstep.pure _

theorem insertIndexEntry_lockstep (fuel : Nat) (indexRelationId : RelationId) (key : IndexKey)
    (rowId : RowId) : Lockstep (stoppingWith (Transaction FileId))
      (insertIndexEntry fuel indexRelationId key rowId : Db (Transaction FileId × Disk) _) := by
  refine Lockstep.bind ensureActive_lockstep fun _ => ?_
  refine Lockstep.bind current_lockstep fun tx => ?_
  refine Lockstep.bind (Lockstep.liftM _) fun root => ?_
  refine Lockstep.bind (insert_lockstep accessesLockstep _ _ _ _) fun newRoot => ?_
  split
  · exact Lockstep.bind (onCatalog_lockstep _) fun _ => markCatalogDirty_lockstep
  · exact markCatalogDirty_lockstep

theorem insertIntoPages_lockstep (bytes : List UInt8) (pageIds : List PageId) :
    Lockstep (stoppingWith (Transaction FileId))
      (insertIntoPages bytes pageIds : Db (Transaction FileId × Disk) _) := by
  induction pageIds with
  | nil => exact Lockstep.pure _
  | cons pageId pageIds ih =>
      refine Lockstep.bind (loadPage_lockstep pageId) fun page => ?_
      rcases Page.insertRecord bytes page with ⟨stop | slotId, page'⟩
      · cases stop with
        | error e =>
            cases e with
            | user message => exact ih
            | retryable message => exact Lockstep.fail _
            | io kind => exact Lockstep.fail _
            | corruption message => exact Lockstep.fail _
            | internalInvariant message => exact Lockstep.fail _
            | extension message => exact Lockstep.fail _
        | panicked => exact Lockstep.fail _
        | aborted => exact Lockstep.fail _
        | outOfFuel => exact Lockstep.fail _
      · exact Lockstep.bind (stage_lockstep _ _) fun _ => Lockstep.pure _

theorem insertRow_lockstep (relationId : RelationId) (bytes : List UInt8) :
    Lockstep (stoppingWith (Transaction FileId))
      (insertRow relationId bytes : Db (Transaction FileId × Disk) _) := by
  refine Lockstep.bind ensureActive_lockstep fun _ => ?_
  refine Lockstep.bind current_lockstep fun tx => ?_
  refine Lockstep.bind (Lockstep.liftM _) fun _ => ?_
  refine Lockstep.bind (Lockstep.liftM _) fun pageIds => ?_
  refine Lockstep.bind (insertIntoPages_lockstep bytes pageIds) fun placed => ?_
  cases placed with
  | some rowId => exact Lockstep.pure _
  | none =>
      refine Lockstep.bind (onCatalog_lockstep _) fun pageId => ?_
      refine Lockstep.bind (Lockstep.liftM _) fun placed => ?_
      refine Lockstep.bind (onCatalog_lockstep _) fun _ => ?_
      refine Lockstep.bind (stage_lockstep _ _) fun _ => ?_
      exact Lockstep.bind markCatalogDirty_lockstep fun _ => Lockstep.pure _

theorem fullScan_lockstep (relationId : RelationId) :
    Lockstep (stoppingWith (Transaction FileId))
      (fullScan relationId : Db (Transaction FileId × Disk) _) := by
  refine Lockstep.bind ensureActive_lockstep fun _ => ?_
  refine Lockstep.bind current_lockstep fun tx => ?_
  refine Lockstep.bind (Lockstep.liftM _) fun _ => ?_
  exact Lockstep.bind (Lockstep.liftM _) fun pageIds => scanHeap_lockstep loadPage_lockstep pageIds

end Transaction

/-! ## The log -/

theorem append_lockstep (kind : WalRecordKind) : Lockstep (stoppingWith (WalWriter FileId))
    (WalWriter.append kind : Db (WalWriter FileId × Disk) Lsn) := by
  refine Lockstep.bind ?_ fun lsn => ?_
  · exact Lockstep.onLeft (fun w => ((LsnAllocator.allocate kind.encodedLen w.allocator).1,
      { w with allocator := (LsnAllocator.allocate kind.encodedLen w.allocator).2 })) fun _ _ => rfl
  · refine Lockstep.bind (Lockstep.liftM _) fun bytes => ?_
    refine Lockstep.get_bind (fun w => ?_) fun _ _ _ => rfl
    exact Lockstep.bind (Lockstep.onRight (writeAllAt_lockstep _ _ _)) fun _ => Lockstep.pure _

theorem logImages_lockstep (txId : TxId) (pages : List Page) :
    Lockstep (stoppingWith (WalWriter FileId))
      (Transaction.logImages txId pages : Db (WalWriter FileId × Disk) Unit) := by
  refine Lockstep.forM fun page _ => ?_
  refine Lockstep.bind (Lockstep.liftM _) fun kind => ?_
  exact Lockstep.bind (append_lockstep kind) fun _ => Lockstep.pure _

theorem logCommit_lockstep (txId : TxId) (pages : List Page) :
    Lockstep (stoppingWith (WalWriter FileId))
      (Transaction.logCommit txId pages : Db (WalWriter FileId × Disk) Unit) := by
  refine Lockstep.bind (logImages_lockstep txId pages) fun _ => ?_
  refine Lockstep.bind (append_lockstep _) fun _ => ?_
  exact Lockstep.get_bind (fun w => Lockstep.onRight (syncData_lockstep _)) fun _ _ _ => rfl

/-! ## The data part of a commit -/

theorem writePage_lockstep (pageFile : PageFile FileId) (page : Page) :
    Lockstep stopping (pageFile.writePage page) := by
  refine Lockstep.bind (Lockstep.liftM _) fun header => ?_
  refine Lockstep.bind (Lockstep.liftM _) fun header' => ?_
  refine Lockstep.bind (Lockstep.liftM _) fun _ => ?_
  refine Lockstep.bind (Lockstep.liftM _) fun _ => ?_
  refine Lockstep.bind (Lockstep.liftM _) fun offset => ?_
  exact writeAllAt_lockstep _ _ _

theorem writePages_lockstep (pageFile : PageFile FileId) (pages : List Page) :
    Lockstep stopping (Transaction.writePages pageFile pages) :=
  Lockstep.bind (Lockstep.forM fun page _ => writePage_lockstep pageFile page) fun _ =>
    syncData_lockstep _

theorem Transaction.commit_lockstep :
    Lockstep (stoppingWith (Transaction FileId)) (commit : Db (Transaction FileId × Disk) Unit) := by
  refine Lockstep.bind ensureActive_lockstep fun _ => ?_
  refine Lockstep.bind current_lockstep fun tx => ?_
  refine Lockstep.bind (Lockstep.onPart (Lockstep.onPart (logCommit_lockstep _ _))) fun _ => ?_
  refine Lockstep.bind (Lockstep.onRight (writePages_lockstep _ _)) fun _ => ?_
  exact Lockstep.onLeft (fun tx => (.ok (), { tx with
    manager := { tx.manager with
      store := tx.manager.store.replaceCatalog tx.workingCatalog
      activeWriter := false }
    state := .committed })) fun _ _ => rfl

/-! ## Calls of the idle store -/

namespace TransactionalStore

section Reads

variable {c : Comparison Disk}
  (hread : ∀ (pageFile : PageFile FileId) id, Lockstep c (pageFile.readPage id))
include hread

theorem fullScan_lockstep (store : TransactionalStore FileId) (relationId : RelationId) :
    Lockstep c (store.fullScan relationId) := by
  refine Lockstep.bind (Lockstep.liftM _) fun _ => ?_
  refine Lockstep.bind (Lockstep.liftM _) fun pageIds => ?_
  exact scanHeap_lockstep (hread _) pageIds

theorem readRow_lockstep (store : TransactionalStore FileId) (relationId : RelationId)
    (rowId : RowId) : Lockstep c (store.readRow relationId rowId) := by
  refine Lockstep.bind (Lockstep.liftM _) fun _ => ?_
  refine Lockstep.bind (Lockstep.liftM _) fun pageIds => ?_
  refine Lockstep.bind (Lockstep.liftM _) fun _ => ?_
  refine Lockstep.bind (hread _ _) fun page => ?_
  refine Lockstep.bind (Lockstep.liftM _) fun header => ?_
  refine Lockstep.bind (Lockstep.liftM _) fun _ => ?_
  exact Lockstep.bind (Lockstep.liftM _) fun record => Lockstep.pure _

theorem accessesLockstep :
    AccessesLockstep (S := CatalogStore FileId × Disk) (c.beside (CatalogStore FileId)) where
  load _ := Lockstep.get_bind (fun _ => Lockstep.onRight (hread _ _)) fun _ _ _ => rfl
  store _ := Lockstep.liftM _
  allocate := Lockstep.liftM _

theorem lookupIndex_lockstep (fuel : Nat) (indexRelationId : RelationId) (key : IndexKey) :
    Lockstep (c.beside (TransactionalStore FileId))
      (lookupIndex fuel indexRelationId key : Db (TransactionalStore FileId × Disk) _) := by
  refine Lockstep.get_bind (fun s => ?_) fun _ _ _ => rfl
  exact Lockstep.bind (Lockstep.liftM _) fun root =>
    Lockstep.onPart (lookup_lockstep (accessesLockstep hread) _ _ _)

end Reads

theorem allocateTxId_lockstep : Lockstep (stoppingWith (TransactionalStore FileId))
    (allocateTxId : Db (TransactionalStore FileId × Disk) _) := by
  refine Lockstep.get_bind (fun s => ?_) fun _ _ _ => rfl
  refine Lockstep.bind (Lockstep.liftM _) fun _ => ?_
  refine Lockstep.bind ?_ fun _ => Lockstep.pure _
  exact Lockstep.onLeft (fun store => (.ok (), { store with nextTxId := store.nextTxId + 1 }))
    fun _ _ => rfl

theorem setActiveWriter_lockstep (active : Bool) : Lockstep (stoppingWith (TransactionalStore FileId))
    (setActiveWriter active : Db (TransactionalStore FileId × Disk) _) :=
  Lockstep.onLeft (fun store => (.ok (), { store with activeWriter := active })) fun _ _ => rfl

theorem begin_lockstep : Lockstep (stoppingWith (TransactionalStore FileId))
    (begin : Db (TransactionalStore FileId × Disk) _) := by
  refine Lockstep.get_bind (fun s => ?_) fun _ _ _ => rfl
  refine Lockstep.bind (Lockstep.liftM _) fun _ => ?_
  refine Lockstep.bind allocateTxId_lockstep fun txId => ?_
  refine Lockstep.bind (setActiveWriter_lockstep true) fun _ => ?_
  refine Lockstep.bind (Lockstep.attempt (Lockstep.onPart (append_lockstep _))) fun outcome => ?_
  cases outcome with
  | error stop => exact Lockstep.bind (setActiveWriter_lockstep false) fun _ => Lockstep.fail _
  | ok lsn => exact Lockstep.get_bind (fun s => Lockstep.pure _) fun _ _ _ => rfl

/-- Calls in a transaction of their own, whatever they are. -/
theorem withTransaction_lockstep {α : Type} {body : Db (Transaction FileId × Disk) α}
    (hbody : Lockstep (stoppingWith (Transaction FileId)) body) :
    Lockstep (stoppingWith (TransactionalStore FileId)) (withTransaction body) where
  stays s h := by
    have hbegin := begin_lockstep.stays s h
    rw [withTransaction]
    rcases hrun : begin s with ⟨stop | tx, store, e⟩
    · rwa [hrun] at hbegin
    · rw [hrun] at hbegin
      obtain ⟨hstopped, hkeeps⟩ := hbody.stays (tx, e) hbegin.1
      exact ⟨hstopped, stopping.keeps_trans hbegin.2 hkeeps⟩
  agree s t h := by
    have hbegin := begin_lockstep.agree s t h
    rw [withTransaction, withTransaction]
    rcases hrun : begin s with ⟨r, store, e⟩
    rcases hrun' : begin t with ⟨r', store', e'⟩
    rw [hrun, hrun'] at hbegin
    rcases hbegin with hstopped | ⟨hsame, hstore, hrelated⟩
    · cases r with
      | error stop => exact Or.inl hstopped
      | ok tx => exact Or.inl (hbody.stays (tx, e) hstopped).1
    · obtain rfl : r' = r := hsame
      cases r' with
      | error stop => exact Or.inr ⟨rfl, hstore, hrelated⟩
      | ok tx =>
          refine (hbody.agree (tx, e) (tx, e') ⟨rfl, hrelated⟩).imp_right fun hagree => ?_
          exact ⟨hagree.1, congrArg Transaction.drop hagree.2.1, hagree.2.2⟩

end TransactionalStore

/-! ## A whole transaction -/

section Whole

variable {records : List WalRecord} {w w' : WalWriter FileId} {d e : Disk} {α : Type}

/-- A run at whose end the machine has not stopped is the one on the disk without faults. -/
theorem healed_of_lockstep {H : Type} {m : Db (H × Disk) α} (hm : Lockstep (stoppingWith H) m)
    {x y : H} {r : DbResult α} (hd : CrashOnly d) (hrun : m (x, d) = (r, (y, e)))
    (he : ¬ HasStopped e) :
    ¬ HasStopped d ∧ CrashOnly e ∧ m (x, d.healed) = (r, (y, e.healed)) := by
  have hagree := hm.agree (x, d) (x, d.healed) ⟨rfl, hd, rfl⟩
  have hstays := hm.stays (x, d)
  rw [hrun] at hagree hstays
  rcases hagree with hstopped | ⟨hsame, hleft, hcrash, hright⟩
  · exact absurd hstopped.2 he
  · refine ⟨fun h => ?_, hcrash, Prod.ext hsame (Prod.ext hleft hright)⟩
    exact he (hstays ⟨hd, h⟩).1.2

/-- After an append that returns, the machine is still running. -/
theorem append_running {kind : WalRecordKind} {lsn : Lsn} (hd : CrashOnly d)
    (h : WalWriter.append kind (w, d) = (.ok lsn, (w', e))) : ¬ HasStopped e := by
  by_cases hroom : w.allocator.next.val.toNat + kind.encodedLen < 2 ^ 64
  case neg =>
    rw [append_of_full hroom] at h
    cases h
  rcases hfault : d.nextFault with _ | fault
  case some =>
    rw [append_of_fault hroom hfault (hd _ _ hfault).1] at h
    cases h
  rw [append_of_noFault hroom hfault] at h
  cases h
  rintro ⟨i, hi, hsome⟩
  rw [faults_record, faults_setFile] at hsome
  rw [trace_record, trace_setFile, List.length_append, List.length_singleton] at hi
  rcases Nat.lt_succ_iff_lt_or_eq.1 hi with hlt | rfl
  · have hdown := HasStopped.down ⟨i, hlt, hsome⟩ hd
    rw [Down, hfault] at hdown
    cases hdown
  · rw [← nextFault, hfault] at hsome
    cases hsome

/-- The images and the commit marker. -/
def logMarker (txId : TxId) (pages : List Page) : Db (WalWriter FileId × Disk) Lsn := do
  Transaction.logImages txId pages
  WalWriter.append (.commitTx txId)

theorem logMarker_lockstep (txId : TxId) (pages : List Page) :
    Lockstep (stoppingWith (WalWriter FileId)) (logMarker txId pages) :=
  Lockstep.bind (logImages_lockstep txId pages) fun _ => append_lockstep _

/-- The log part of a commit goes on after the marker with the sync. -/
theorem logCommit_of_marker {txId : TxId} {pages : List Page} {lsn : Lsn}
    (h : logMarker txId pages (w, d) = (.ok lsn, (w', e))) :
    Transaction.logCommit txId pages (w, d) = ((w'.syncData e).1, (w', (w'.syncData e).2)) := by
  obtain ⟨⟨⟩, s, himages, happend⟩ := Exec.bind_eq_ok.1 h
  rw [Transaction.logCommit, Exec.bind_of_ok himages, Exec.bind_of_ok happend]
  rfl

/-- The marker gets into the log, or the log part fails without it. -/
theorem logMarker_cases {txId : TxId} {pages : List Page}
    (hpages : ∀ page ∈ pages, ∃ pageId, page.ValidAs pageId) (h : WalAt records w d) :
    (∃ stop w' e new, Transaction.logCommit txId pages (w, d) = (.error stop, (w', e)) ∧
      WalAt (records ++ new) w' e ∧ ∀ txId, .commitTx txId ∉ kindsOf new) ∨
    ∃ lsn w' e, logMarker txId pages (w, d) = (.ok lsn, (w', e)) ∧ ¬ HasStopped e ∧
      w'.file = .wal := by
  obtain ⟨r, w₁, e₁, new, himages, hat, -, hpart, -⟩ := logImages_walAt hpages h
  cases r with
  | error stop =>
      refine Or.inl ⟨stop, w₁, e₁, new, ?_, hat, commitTx_not_mem_images hpart⟩
      rw [Transaction.logCommit, Exec.bind_of_error himages]
  | ok u =>
      rcases append_walAt hat (.commitTx txId) with
        ⟨lsn, w₂, e₂, happend, hat₂, -⟩ | ⟨stop, w₂, e₂, happend, hat₂, -⟩
      · refine Or.inr ⟨lsn, w₂, e₂, ?_, append_running hat.crashOnly happend, hat₂.file⟩
        rw [logMarker, Exec.bind_of_ok himages, happend]
      · refine Or.inl ⟨stop, w₂, e₂, new, ?_, hat₂, commitTx_not_mem_images hpart⟩
        rw [Transaction.logCommit, Exec.bind_of_ok himages, Exec.bind_of_error happend]

/-- Behind the marker, a commit adds nothing to the log, and does not return before the
whole log is synced. -/
theorem commit_of_marker {tx : Transaction FileId} {lsn : Lsn} (hstate : tx.state = .active)
    (hfile : tx.manager.store.pageFile.file = .data) (hstaged : tx.StagedValid)
    (hmarker : logMarker tx.txId tx.stagedPages (tx.manager.wal, d) = (.ok lsn, (w', e)))
    (hw : w'.file = .wal) (he : CrashOnly e) :
    (Transaction.commit (tx, d)).2.2.wal = e.wal ∧ ∀ u, (Transaction.commit (tx, d)).1 = .ok u →
      (Transaction.commit (tx, d)).2.2.walSynced =
        (Transaction.commit (tx, d)).2.2.wal.bytes.length := by
  rw [Transaction.commit_eq hstate, logCommit_of_marker hmarker]
  have hsync : w'.syncData e = syncData .wal e := by rw [WalWriter.syncData, hw, vfs_syncData]
  rw [hsync]
  rcases syncData_wal he with ⟨e₁, he₁, hwal, -, hfaults, hsynced⟩ | ⟨stop, e₁, he₁, hsame, -⟩
  · rw [he₁]
    dsimp only
    rcases hwrite : Transaction.writePages tx.manager.store.pageFile tx.stagedPages e₁ with ⟨r, e₂⟩
    obtain ⟨hsame, -⟩ := writePages_crashOnly hfile (he.congr hfaults) hstaged.validAs hwrite
    cases r with
    | error stop => exact ⟨hsame.wal.trans hwal, fun u hu => by cases hu⟩
    | ok u =>
        refine ⟨hsame.wal.trans hwal, fun _ _ => ?_⟩
        change e₂.walSynced = e₂.wal.bytes.length
        rw [hsame.walSynced, hsame.wal, hsynced, hwal]
  · rw [he₁]
    exact ⟨hsame.wal, fun u hu => by cases hu⟩

/-- How a call that may commit fares when the machine may stop: it fails and the log gets no
commit marker, or the log becomes the one of the disk without faults, or nothing is done. -/
inductive Fares (records : List WalRecord) (d : Disk) (r : DbResult α) (e calm : Disk) : Prop
  | unmarked {new : List WalRecord} {w : WalWriter FileId} (log : WalAt (records ++ new) w e)
      (markers : ∀ txId, .commitTx txId ∉ kindsOf new) (failed : ∀ a, r ≠ .ok a)
  | logged (log : calm.wal = e.wal)
      (synced : ∀ a, r = .ok a → e.walSynced = e.wal.bytes.length)
  | looked (crashed : OnlyReads d e) (calm : OnlyReads d.healed calm)

/-- The end of a transaction whose calls have returned. -/
theorem commit_fares {tx : Transaction FileId} (hstate : tx.state = .active)
    (hfile : tx.manager.store.pageFile.file = .data) (hstaged : tx.StagedValid)
    (h : WalAt records tx.manager.wal d) :
    (∃ stop s new w, Transaction.commit (tx, d) = (.error stop, s) ∧ WalAt (records ++ new) w s.2 ∧
      ∀ txId, .commitTx txId ∉ kindsOf new) ∨
    ¬ HasStopped d ∧
      (Transaction.commit (tx, d.healed)).2.2.wal = (Transaction.commit (tx, d)).2.2.wal ∧
      ∀ u, (Transaction.commit (tx, d)).1 = .ok u → (Transaction.commit (tx, d)).2.2.walSynced =
        (Transaction.commit (tx, d)).2.2.wal.bytes.length := by
  rcases logMarker_cases hstaged.validAs h with
    ⟨stop, w, e, new, hlog, hat, hmarkers⟩ | ⟨lsn, w, e, hmarker, hrunning, hw⟩
  · refine Or.inl ⟨stop, (tx.withWal w, e), new, w, ?_, hat, hmarkers⟩
    rw [Transaction.commit_eq hstate, hlog]
  · obtain ⟨hbefore, hcrash, hcalm⟩ :=
      healed_of_lockstep (logMarker_lockstep _ _) h.crashOnly hmarker hrunning
    obtain ⟨hwal, hsynced⟩ := commit_of_marker hstate hfile hstaged hmarker hw hcrash
    obtain ⟨hwal', -⟩ :=
      commit_of_marker hstate hfile hstaged hcalm hw e.healed_faultFree.crashOnly
    exact Or.inr ⟨hbefore, hwal'.trans hwal.symm, hsynced⟩

end Whole

namespace TransactionalStore

/-- On a machine that has stopped, no transaction begins. -/
theorem withTransaction_of_stopped {α : Type} {store : TransactionalStore FileId} {d : Disk}
    (body : Db (Transaction FileId × Disk) α) (hd : CrashOnly d) (hstopped : HasStopped d) (a : α) :
    (withTransaction body (store, d)).1 ≠ .ok a := by
  intro hok
  by_cases hbusy : store.activeWriter = true
  · rw [withTransaction, begin_of_busy hbusy] at hok
    cases hok
  by_cases hfull : store.nextTxId.toNat + 1 ≥ 2 ^ 64
  · rw [withTransaction, begin_of_full hbusy hfull] at hok
    cases hok
  rw [withTransaction, begin_eq hbusy hfull] at hok
  rcases happend : WalWriter.append (.beginTx ⟨store.nextTxId⟩) (store.wal, d) with ⟨stop | lsn, w, e⟩
  · rw [happend] at hok
    cases hok
  · have hstays := (append_lockstep (.beginTx ⟨store.nextTxId⟩)).stays (store.wal, d) ⟨hd, hstopped⟩
    rw [happend] at hstays
    exact append_running hd happend hstays.1.2

/-- A call that ends in a transaction of its own. -/
theorem withTransaction_fares {α β : Type} {records : List WalRecord}
    {store : TransactionalStore FileId} {d : Disk} {m : Db (Transaction FileId × Disk) α} {k : α → β}
    (hgood : (Session.idle store).Good) (h : WalAt records store.wal d)
    (hstaging : Exec.Preserves Transaction.Staging m)
    (hlock : Lockstep (stoppingWith (Transaction FileId)) m) :
    Fares records d (withTransaction (do
        let a ← m
        Transaction.commit
        return k a) (store, d)).1 (withTransaction (do
        let a ← m
        Transaction.commit
        return k a) (store, d)).2.2 (withTransaction (do
        let a ← m
        Transaction.commit
        return k a) (store, d.healed)).2.2 := by
  by_cases hbusy : store.activeWriter = true
  · rw [withTransaction, withTransaction, begin_of_busy hbusy, begin_of_busy hbusy]
    exact Fares.looked (OnlyReads.refl d) (OnlyReads.refl d.healed)
  by_cases hfull : store.nextTxId.toNat + 1 ≥ 2 ^ 64
  · rw [withTransaction, withTransaction, begin_of_full hbusy hfull, begin_of_full hbusy hfull]
    exact Fares.looked (OnlyReads.refl d) (OnlyReads.refl d.healed)
  rcases append_walAt h (.beginTx ⟨store.nextTxId⟩) with
    ⟨lsn, w, e, happend, hat, -⟩ | ⟨stop, w, e, happend, hat, -⟩
  case inr =>
    have hlog : WalAt (records ++ []) w e := by rwa [List.append_nil]
    rw [withTransaction, begin_eq hbusy hfull, happend]
    exact Fares.unmarked hlog (fun txId hmem => by cases hmem) fun a ha => by cases ha
  -- the begin marker has been logged
  have hbegin : begin (store, d) = (.ok (store.started w), (store.advanced w true, e)) := by
    rw [begin_eq hbusy hfull, happend]
  have hone : ∀ txId, .commitTx txId ∉ kindsOf [⟨lsn, .beginTx ⟨store.nextTxId⟩⟩] := by
    intro txId hmem
    cases List.mem_singleton.1 hmem
  rcases hbody : m (store.started w, e) with ⟨r, tx, e'⟩
  have hstages := hstaging.rel hbody
  have hat' : WalAt (records ++ [⟨lsn, .beginTx ⟨store.nextTxId⟩⟩]) tx.manager.wal e' := by
    rw [show tx.manager = (store.started w).manager from hstages.manager]
    exact Session.OnlyReads_walAt hat hstages.disk
  cases r with
  | error stop =>
      rw [withTransaction, hbegin]
      dsimp only
      rw [Exec.bind_of_error hbody]
      exact Fares.unmarked hat' hone fun a ha => by cases ha
  | ok a =>
      have hstate : tx.state = .active := hstages.state
      have hfile : tx.manager.store.pageFile.file = .data := by
        rw [show tx.manager = (store.started w).manager from hstages.manager]
        exact hgood.data
      have hstaged : tx.StagedValid := by
        refine hstages.staged fun id page hpage => ?_
        simp [started] at hpage
      rcases commit_fares hstate hfile hstaged hat' with
        ⟨stop, s, new, w', hcommit, hlog, hmarkers⟩ | ⟨hrunning, hwal, hsynced⟩
      · rw [withTransaction, hbegin]
        dsimp only
        rw [Exec.bind_of_ok hbody, Exec.bind_of_error hcommit]
        rw [List.append_assoc] at hlog
        refine Fares.unmarked hlog (fun txId hmem => ?_) fun a ha => by cases ha
        rw [kindsOf_append, List.mem_append] at hmem
        exact hmem.elim (hone txId) (hmarkers txId)
      · obtain ⟨hbefore, hcrash, hcalm⟩ := healed_of_lockstep hlock hat.crashOnly hbody hrunning
        obtain ⟨-, -, hcalm'⟩ := healed_of_lockstep (append_lockstep _) h.crashOnly happend hbefore
        have hbegin' : begin (store, d.healed) =
            (.ok (store.started w), (store.advanced w true, e.healed)) := by
          rw [begin_eq hbusy hfull, hcalm']
        rw [withTransaction, withTransaction, hbegin, hbegin']
        dsimp only
        rw [Exec.bind_of_ok hbody, Exec.bind_of_ok hcalm]
        rcases hcommit : Transaction.commit (tx, e') with ⟨r', s⟩
        rcases hcommit' : Transaction.commit (tx, e'.healed) with ⟨r'', s'⟩
        rw [hcommit, hcommit'] at hwal
        rw [hcommit] at hsynced
        have hwal' : s'.2.wal = s.2.wal := hwal
        cases r' with
        | error stop =>
            rw [Exec.bind_of_error hcommit]
            cases r'' with
            | error stop' =>
                rw [Exec.bind_of_error hcommit']
                exact Fares.logged hwal' fun a ha => by cases ha
            | ok u =>
                rw [Exec.bind_of_ok hcommit']
                exact Fares.logged hwal' fun a ha => by cases ha
        | ok u =>
            rw [Exec.bind_of_ok hcommit]
            cases r'' with
            | error stop' =>
                rw [Exec.bind_of_error hcommit']
                exact Fares.logged hwal' fun _ _ => hsynced () rfl
            | ok u =>
                rw [Exec.bind_of_ok hcommit']
                exact Fares.logged hwal' fun _ _ => hsynced () rfl

end TransactionalStore

end Rdbms
