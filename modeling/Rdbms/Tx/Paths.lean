import Rdbms.Catalog.Direct
import Rdbms.Tx.Autocommit
import Rdbms.Tx.Careful

/-!
# Two ways to fill a table

A table can be created and filled with the calls of the catalog store, which write pages
as they go, and with the autocommit calls, which stage pages and copy them at the commit.
Both choose the same ids, slots and pages, so on disks without faults they give the same
answers and leave the same data file, as long as the log has sequence numbers left.
-/

namespace Rdbms

open Library Disk ByteFile Wal

/-! ## A log with any content -/

/-- A log writer at the end of its file, on a disk without faults. -/
structure AtTail (w : WalWriter FileId) (d : Disk) : Prop where
  file : w.file = .wal
  next : w.allocator.next.val.toNat = d.wal.bytes.length
  faultFree : FaultFree d

/-- The log has grown by `n` bytes, and the data file is as before. -/
structure Grown (d : Disk) (n : Nat) (w : WalWriter FileId) (e : Disk) : Prop where
  atTail : AtTail w e
  data : e.data = d.data
  length : e.wal.bytes.length = d.wal.bytes.length + n

section Log

variable {w : WalWriter FileId} {d : Disk}

theorem AtTail.append (h : AtTail w d) (kind : WalRecordKind)
    (hroom : d.wal.bytes.length + kind.encodedLen < 2 ^ 64) : ∃ lsn w' e,
      WalWriter.append kind (w, d) = (.ok lsn, (w', e)) ∧ Grown d kind.encodedLen w' e := by
  rw [← h.next] at hroom
  have hlen := WalRecord.length_bytes ⟨w.allocator.next, kind⟩
  have hend : w.allocator.next.val.toNat +
      (WalRecord.bytes ⟨w.allocator.next, kind⟩).length < 2 ^ 64 := by
    rwa [hlen]
  have hwal : (d.wal.write w.allocator.next.val.toNat
      (WalRecord.bytes ⟨w.allocator.next, kind⟩)).bytes.length =
        d.wal.bytes.length + kind.encodedLen := by
    rw [bytes_write _ hend, length_writeAt (bytes_ne_nil _), hlen, h.next]
    exact max_eq_left (Nat.le_add_right _ _)
  have happend := append_of_noFault hroom h.faultFree.nextFault
  rw [h.file, show d.file .wal = d.wal from rfl] at happend
  refine ⟨_, _, _, happend, ?_⟩
  generalize d.wal.write w.allocator.next.val.toNat _ = f at hwal
  have hatEnd : AtTail (w.advanced kind.encodedLen) ((d.setFile .wal f).record
      ⟨.wal, .write w.allocator.next.val (WalRecord.bytes ⟨w.allocator.next, kind⟩), true⟩) := by
    refine ⟨h.file, ?_, h.faultFree⟩
    rw [toNat_next_advanced hroom, h.next, wal_record, wal_setFile_wal, hwal]
  exact ⟨hatEnd, rfl, hwal⟩

theorem Grown.trans {m n : Nat} {w' : WalWriter FileId} {e e' : Disk} (h : Grown d m w e)
    (h' : Grown e n w' e') : Grown d (m + n) w' e' where
  atTail := h'.atTail
  data := h'.data.trans h.data
  length := by rw [h'.length, h.length, Nat.add_assoc]

theorem AtTail.logImages {txId : TxId} {pages : List Page}
    (hpages : ∀ page ∈ pages, ∃ pageId, page.ValidAs pageId) : ∀ {w : WalWriter FileId} {d : Disk},
    AtTail w d → d.wal.bytes.length + totalLen (imageKinds txId pages) < 2 ^ 64 →
    ∃ w' e, Transaction.logImages txId pages (w, d) = (.ok (), (w', e)) ∧
      Grown d (totalLen (imageKinds txId pages)) w' e := by
  induction pages with
  | nil => exact fun {w d} h _ => ⟨w, d, rfl, h, rfl, rfl⟩
  | cons page pages ih =>
      intro w d h hroom
      rw [List.forall_mem_cons] at hpages
      obtain ⟨pageId, hvalid⟩ := hpages.1
      rw [imageKinds, List.map_cons, totalLen_cons, ← imageKinds] at hroom ⊢
      obtain ⟨lsn, w₁, e₁, happend, hgrown⟩ :=
        h.append (.pageImage txId page.id page) (by omega)
      obtain ⟨w₂, e₂, himages, hgrown'⟩ := ih hpages.2 hgrown.atTail (by rw [hgrown.length]; omega)
      refine ⟨w₂, e₂, ?_, hgrown.trans hgrown'⟩
      rw [logImages_cons hvalid, Exec.bind_of_ok happend, himages]

theorem AtTail.logCommit {txId : TxId} {pages : List Page}
    (hpages : ∀ page ∈ pages, ∃ pageId, page.ValidAs pageId) (h : AtTail w d)
    (hroom : d.wal.bytes.length +
      totalLen (imageKinds txId pages ++ [.commitTx txId]) < 2 ^ 64) :
    ∃ w' e, Transaction.logCommit txId pages (w, d) = (.ok (), (w', e)) ∧
      Grown d (totalLen (imageKinds txId pages ++ [.commitTx txId])) w' e := by
  rw [totalLen_append, totalLen_cons] at hroom ⊢
  have himages : d.wal.bytes.length + totalLen (imageKinds txId pages) < 2 ^ 64 := by omega
  obtain ⟨w₁, e₁, himages, hgrown⟩ := h.logImages hpages himages
  obtain ⟨lsn, w₂, e₂, happend, hgrown'⟩ := hgrown.atTail.append (.commitTx txId)
    (by rw [hgrown.length]; omega)
  have hsync : w₂.syncData e₂ = (.ok (), (e₂.synced .wal).record ⟨.wal, .sync, true⟩) := by
    rw [WalWriter.syncData, hgrown'.atTail.file]
    simp only [vfs_syncData, syncData, hgrown'.atTail.faultFree.nextFault]
  have hgrown'' : Grown e₂ 0 w₂ ((e₂.synced .wal).record ⟨.wal, .sync, true⟩) :=
    ⟨⟨hgrown'.atTail.file, hgrown'.atTail.next, hgrown'.atTail.faultFree⟩, rfl, rfl⟩
  refine ⟨w₂, _, ?_, (hgrown.trans hgrown').trans hgrown''⟩
  rw [Transaction.logCommit, Exec.bind_of_ok himages, Exec.bind_of_ok happend]
  simp only [Exec.bind_apply, Exec.get_apply, Exec.onRight_apply, hsync]

end Log

theorem TransactionalStore.begin_of_atTail {store : TransactionalStore FileId} {d : Disk}
    (h : AtTail store.wal d) (hfree : store.activeWriter = false)
    (hids : store.nextTxId.toNat + 1 < 2 ^ 64)
    (hroom : d.wal.bytes.length + (WalRecordKind.beginTx ⟨store.nextTxId⟩).encodedLen < 2 ^ 64) :
    ∃ w e, begin (store, d) = (.ok (store.started w), (store.advanced w true, e)) ∧
      Grown d (WalRecordKind.beginTx ⟨store.nextTxId⟩).encodedLen w e := by
  obtain ⟨lsn, w, e, happend, hgrown⟩ := h.append (.beginTx ⟨store.nextTxId⟩) hroom
  have hbusy : ¬ store.activeWriter = true := by
    rw [hfree]
    exact Bool.false_ne_true
  refine ⟨w, e, ?_, hgrown⟩
  rw [begin_eq hbusy (not_le.2 hids), happend]

/-! ## The pages of a commit -/

namespace ByteFile

variable {f : ByteFile} {m n : Nat} {p q : Page}

theorem ext_bytes {g : ByteFile} (h : g.bytes = f.bytes) : g = f := by
  obtain ⟨bytes, hlt⟩ := f
  obtain ⟨bytes', hlt'⟩ := g
  cases h
  rfl

theorem putPage_comm_of_lt (hm : Fits m) (hn : Fits n) (hlt : m < n) :
    (f.putPage m p).putPage n q = (f.putPage n q).putPage m p := by
  apply ext_bytes
  apply List.ext_getElem?
  intro i
  simp only [getElem?_putPage hm, getElem?_putPage hn, length_putPage hm, length_putPage hn, pageSize]
  split_ifs
  all_goals first | omega | rfl

/-- Pages with different numbers can be written in any order. -/
theorem putPage_comm (hm : Fits m) (hn : Fits n) (hne : m ≠ n) :
    (f.putPage m p).putPage n q = (f.putPage n q).putPage m p := by
  rcases Nat.lt_or_gt_of_ne hne with hlt | hlt
  · exact putPage_comm_of_lt hm hn hlt
  · exact (putPage_comm_of_lt hn hm hlt).symm

theorem putPages_perm {xs ys : List Page} (h : xs.Perm ys) (hfits : ∀ page ∈ xs, Fits page.number)
    (hdistinct : ∀ p ∈ xs, ∀ q ∈ xs, p.number = q.number → p = q) (f : ByteFile) :
    f.putPages xs = f.putPages ys := by
  refine h.foldl_eq' ?_ f
  intro p hp q hq g
  by_cases heq : p.number = q.number
  · rw [hdistinct p hp q hq heq]
  · exact putPage_comm (hfits p hp) (hfits q hq) heq

end ByteFile

namespace Transaction

variable {tx : Transaction FileId} {d : Disk} {i j : PageId} {p q : Page}

/-- A page that is staged under a new id is added to the staged pages. -/
theorem stagedPages_withStaged (h : tx.dirtyPages[i]? = none) (p : Page) :
    (tx.withStaged i p).stagedPages.Perm (p :: tx.stagedPages) := by
  have hkeep : tx.dirtyPages.toList.filter (fun x => ¬(i == x.1) = true) = tx.dirtyPages.toList := by
    refine List.filter_eq_self.2 ?_
    rintro ⟨id, page⟩ hmem
    rw [Std.TreeMap.mem_toList_iff_getElem?_eq_some] at hmem
    have hne : i ≠ id := by
      rintro rfl
      rw [h] at hmem
      cases hmem
    simpa using hne
  have hperm := Std.TreeMap.toList_insert_perm (t := tx.dirtyPages) (k := i) (v := p)
  rw [hkeep] at hperm
  exact hperm.map Prod.snd

theorem onCatalog_of_eq {α : Type} {m : Db Catalog α} {r : DbResult α} {c c' : Catalog}
    (hc : tx.workingCatalog = c) (h : m c = (r, c')) :
    onCatalog m (tx, d) = (r, ({ tx with workingCatalog := c' }, d)) := by
  rw [onCatalog, Exec.zoom_apply, hc, h]

/-- What is left to do once the catalog has the table. -/
theorem createTable_of_metadata {name : String} {columns : List ColumnDef} {relationId : RelationId}
    {c : Catalog} (hactive : tx.state = .active)
    (h : Catalog.createTableMetadata name columns tx.workingCatalog = (.ok (relationId, i), c)) :
    createTable name columns (tx, d) = (do
      markCatalogDirty
      return relationId : Db (Transaction FileId × Disk) RelationId)
      (withStaged { tx with workingCatalog := c } i (Page.new i .heap), d) := by
  rw [createTable, Exec.bind_of_ok (ensureActive_of_active (s := (tx, d)) hactive),
    Exec.bind_of_ok (onCatalog_of_eq rfl h)]
  rfl

theorem markCatalogDirty_of_error {stop : Stop} (h : tx.workingCatalog.toPage = .error stop) :
    markCatalogDirty (tx, d) = (.error stop, (tx, d)) := by
  simp only [markCatalogDirty, Exec.bind_apply, current_apply, Exec.liftM_apply, h]

theorem markCatalogDirty_of_fits (h : tx.workingCatalog.toPage = .ok p) :
    markCatalogDirty (tx, d) = (.ok (), (tx.withStaged catalogPageId p, d)) := by
  simp only [markCatalogDirty, Exec.bind_apply, current_apply, Exec.liftM_apply, h]
  rfl

theorem stagedPages_of_empty (h : tx.dirtyPages = ∅) : tx.stagedPages = [] := by
  rw [stagedPages, h]
  rfl

theorem stagedPages_withStaged_of_empty (h : tx.dirtyPages = ∅) (i : PageId) (p : Page) :
    (tx.withStaged i p).stagedPages = [p] := by
  have hnew : tx.dirtyPages[i]? = none := by
    rw [h]
    rfl
  have hperm := stagedPages_withStaged hnew p
  rw [stagedPages_of_empty h] at hperm
  exact List.perm_singleton.1 hperm

theorem perm_withStaged_withStaged (h : tx.dirtyPages = ∅) (hne : i ≠ j) (p q : Page) :
    ((tx.withStaged i p).withStaged j q).stagedPages.Perm [q, p] := by
  have hnew : (tx.withStaged i p).dirtyPages[j]? = none := by
    simp only [withStaged, h, Std.TreeMap.getElem?_insert, Std.LawfulEqCmp.compare_eq_iff_eq, if_neg hne]
    rfl
  refine (stagedPages_withStaged hnew q).trans (List.Perm.cons q ?_)
  rw [stagedPages_withStaged_of_empty h]

/-- What a commit writes when two pages are staged. -/
theorem putPages_withStaged_withStaged (h : tx.dirtyPages = ∅) (hi : p.ValidAs i) (hj : q.ValidAs j)
    (hne : i ≠ j) (hfits : Fits i.val.toNat) (hfits' : Fits j.val.toNat) (f : ByteFile) :
    f.putPages ((tx.withStaged i p).withStaged j q).stagedPages =
      (f.putPage p.number p).putPage q.number q := by
  have hperm := perm_withStaged_withStaged h hne p q
  have hnumbers : q.number ≠ p.number := by
    rw [hi.number, hj.number]
    exact (PageId.toNat_ne hne).symm
  rw [← putPages_perm hperm.symm]
  · exact putPage_comm (by rwa [hj.number]) (by rwa [hi.number]) hnumbers
  · intro page hpage
    rcases List.mem_pair.1 hpage with rfl | rfl
    · rwa [hj.number]
    · rwa [hi.number]
  · intro page hpage page' hpage' heq
    rcases List.mem_pair.1 hpage with rfl | rfl
    · rcases List.mem_pair.1 hpage' with rfl | rfl
      · rfl
      · exact absurd heq hnumbers
    · rcases List.mem_pair.1 hpage' with rfl | rfl
      · exact absurd heq.symm hnumbers
      · rfl

/-- A commit that the log has room for. -/
theorem commit_of_atTail (h : AtTail tx.manager.wal d) (hstate : tx.state = .active)
    (hfile : tx.manager.store.pageFile = dataFile) (hstaged : tx.StagedValid)
    (hfits : ∀ page ∈ tx.stagedPages, Fits page.number) (hroom : d.wal.bytes.length +
      totalLen (imageKinds tx.txId tx.stagedPages ++ [.commitTx tx.txId]) < 2 ^ 64) : ∃ w e,
    commit (tx, d) = (.ok (), ({ tx with manager := tx.published w, state := .committed }, e)) ∧
      AtTail w e ∧ e.data = d.data.putPages tx.stagedPages ∧ e.wal.bytes.length =
        d.wal.bytes.length + totalLen (imageKinds tx.txId tx.stagedPages ++ [.commitTx tx.txId]) := by
  obtain ⟨w, e, hlog, hgrown⟩ := h.logCommit hstaged.validAs hroom
  obtain ⟨e', hwrite, hsame, hdata⟩ :=
    writePages_faultFree hgrown.atTail.faultFree hstaged.validAs hfits
  refine ⟨w, e', ?_, ⟨hgrown.atTail.file, ?_, fun n => ?_⟩, ?_, ?_⟩
  · rw [commit_eq hstate, hlog, hfile]
    simp only [hwrite]
  · rw [hgrown.atTail.next, hsame.wal]
  · rw [hsame.faults]
    exact hgrown.atTail.faultFree n
  · rw [hdata, hgrown.data]
  · rw [hsame.wal, hgrown.length]

end Transaction

/-! ## Reading the same data file -/

/-- Two disks without faults that hold the same data file. -/
def SameContents (d e : Disk) : Prop := FaultFree d ∧ FaultFree e ∧ e.data = d.data

theorem SameContents.reads {d d' e e' : Disk} (h : SameContents d e) (hd : OnlyReads d d')
    (he : OnlyReads e e') : SameContents d' e' :=
  ⟨hd.faultFree h.1, he.faultFree h.2.1, (he.files.data.trans h.2.2).trans hd.files.data.symm⟩

theorem readExactAt_respects (offset : UInt64) (n : Nat) :
    Exec.Respects SameContents (readExactAt .data offset n) := by
  intro d e h
  refine ⟨?_, h.reads (readExactAt_onlyReads .data offset n d) (readExactAt_onlyReads .data offset n e)⟩
  have hfile : e.file .data = d.file .data := h.2.2
  simp only [readExactAt, h.1.nextFault, h.2.1.nextFault, hfile]
  split_ifs
  · rfl
  · rfl

theorem readPage_respects (pageId : PageId) : Exec.Respects SameContents (dataFile.readPage pageId) := by
  refine Exec.Respects.bind (Exec.Respects.liftM _) fun offset => ?_
  refine Exec.Respects.bind (readExactAt_respects offset pageSize) fun bytes => ?_
  refine Exec.Respects.bind (Exec.Respects.liftM _) fun raw => ?_
  refine Exec.Respects.bind (Exec.Respects.liftM _) fun page => ?_
  refine Exec.Respects.bind (Exec.Respects.liftM _) fun header => ?_
  exact Exec.Respects.bind (Exec.Respects.liftM _) fun _ => Exec.Respects.pure page

theorem scanHeap_respects (pageIds : List PageId) :
    Exec.Respects SameContents (scanHeap dataFile.readPage pageIds) := by
  induction pageIds with
  | nil => exact Exec.Respects.pure []
  | cons pageId pageIds ih =>
      refine Exec.Respects.bind (readPage_respects pageId) fun page => ?_
      refine Exec.Respects.bind (Exec.Respects.liftM _) fun rows => ?_
      exact Exec.Respects.bind ih fun rest => Exec.Respects.pure _

theorem fullScan_respects (catalog : Catalog) (relationId : RelationId) :
    Exec.Respects SameContents (CatalogStore.fullScan ⟨dataFile, catalog⟩ relationId) := by
  refine Exec.Respects.bind (Exec.Respects.liftM _) fun _ => ?_
  exact Exec.Respects.bind (Exec.Respects.liftM _) fun pageIds => scanHeap_respects pageIds

/-! ## What the catalog store leaves alone -/

namespace CatalogStore

/-- The data file stays the page file, and nothing else on the disk changes. -/
def OnlyData (s t : CatalogStore FileId × Disk) : Prop :=
  s.1.pageFile = dataFile → t.1.pageFile = dataFile ∧ SameButData s.2 t.2

instance : IsPreorder (CatalogStore FileId × Disk) OnlyData where
  refl s := fun h => ⟨h, refl_of SameButData s.2⟩
  trans _ _ _ h h' := fun hfile => ⟨(h' (h hfile).1).1, (h hfile).2.trans (h' (h hfile).1).2⟩

theorem onCatalog_onlyData {α : Type} (m : Db Catalog α) :
    Exec.Preserves OnlyData (onCatalog m : Db (CatalogStore FileId × Disk) α) :=
  fun s hfile => ⟨hfile, refl_of SameButData s.2⟩

theorem onPageFile_onlyData {α : Type} {m : PageFile FileId → Db Disk α}
    (h : Exec.Preserves SameButData (m dataFile)) : Exec.Preserves OnlyData (onPageFile m) := by
  intro s hfile
  refine ⟨hfile, ?_⟩
  rw [← hfile] at h
  exact h s.2

theorem saveCatalog_onlyData : Exec.Preserves OnlyData (saveCatalog : Db (CatalogStore FileId × Disk) Unit) := by
  intro s hfile
  refine ⟨hfile, ?_⟩
  have hsave : Exec.Preserves SameButData (s.1.catalog.save dataFile) :=
    Exec.Preserves.bind (Exec.Preserves.liftM _) fun page => writePage_sameButData dataFile_file page
  rw [← hfile] at hsave
  exact hsave s.2

theorem createTable_onlyData (name : String) (columns : List ColumnDef) :
    Exec.Preserves OnlyData (createTable name columns) := by
  refine Exec.Preserves.bind (onCatalog_onlyData _) fun ids => ?_
  refine Exec.Preserves.bind (onPageFile_onlyData (writePage_sameButData dataFile_file _)) fun _ => ?_
  exact Exec.Preserves.bind saveCatalog_onlyData fun _ => Exec.Preserves.pure _

theorem insertIntoPages_sameButData (bytes : List UInt8) (pageIds : List PageId) :
    Exec.Preserves SameButData (insertIntoPages bytes dataFile pageIds) := by
  induction pageIds with
  | nil => exact Exec.Preserves.pure none
  | cons pageId pageIds ih =>
      refine Exec.Preserves.bind (onlyReads_sameButData (readPage_onlyReads _ _)) fun page => ?_
      rcases Page.insertRecord bytes page with ⟨stop | slotId, q⟩
      · rcases stop with (message | _) | _
        · exact ih
        all_goals exact Exec.Preserves.liftM _
      · exact Exec.Preserves.bind (writePage_sameButData dataFile_file q) fun _ => Exec.Preserves.pure _

theorem insertRow_onlyData (relationId : RelationId) (bytes : List UInt8) :
    Exec.Preserves OnlyData (insertRow relationId bytes) := by
  refine Exec.Preserves.bind Exec.Preserves.get fun s => ?_
  refine Exec.Preserves.bind (Exec.Preserves.liftM _) fun _ => ?_
  refine Exec.Preserves.bind (Exec.Preserves.liftM _) fun pageIds => ?_
  refine Exec.Preserves.bind (onPageFile_onlyData (insertIntoPages_sameButData bytes pageIds)) fun placed => ?_
  cases placed with
  | some rowId => exact Exec.Preserves.pure rowId
  | none =>
      refine Exec.Preserves.bind (onCatalog_onlyData _) fun pageId => ?_
      refine Exec.Preserves.bind (Exec.Preserves.liftM _) fun filled => ?_
      refine Exec.Preserves.bind (onPageFile_onlyData (writePage_sameButData dataFile_file _)) fun _ => ?_
      refine Exec.Preserves.bind (onCatalog_onlyData _) fun _ => ?_
      exact Exec.Preserves.bind saveCatalog_onlyData fun _ => Exec.Preserves.pure _

end CatalogStore

/-! ## One call -/

/-- What a call of the catalog store does, and what the same call does inside a transaction
that has just begun: both fail with the same error, or both return the same value, and the
transaction has staged what the other has written. The transaction has staged at most two
pages, one for each page id that it has taken. -/
inductive Copies {α : Type} (nextPageId : Nat) :
    DbResult α × (Transaction FileId × Disk) → DbResult α × (CatalogStore FileId × Disk) → Prop
  | failed {stop : Stop} {u : Transaction FileId × Disk} {s : CatalogStore FileId × Disk} :
      Copies nextPageId (.error stop, u) (.error stop, s)
  | done {a : α} {tx : Transaction FileId} {f d : Disk} (faultFree : FaultFree d)
      (data : d.data = f.data.putPages tx.stagedPages)
      (fits : ∀ page ∈ tx.stagedPages, Fits page.number) (few : tx.stagedPages.length ≤ 2)
      (grows : nextPageId ≤ tx.workingCatalog.nextPageId.toNat)
      (ids : tx.workingCatalog.nextPageId.toNat ≤ nextPageId + tx.stagedPages.length) :
      Copies nextPageId (.ok a, (tx, f)) (.ok a, (⟨dataFile, tx.workingCatalog⟩, d))

/-- A transaction that has just begun, over the data file of a catalog store. -/
structure JustBegun (store : CatalogStore FileId) (d : Disk) (tx : Transaction FileId) (e : Disk) :
    Prop where
  active : tx.state = .active
  manager : tx.manager.store = store
  catalog : tx.workingCatalog = store.catalog
  nothing : tx.dirtyPages = ∅
  data : e.data = d.data
  file : store.pageFile = dataFile
  direct : FaultFree d
  transactional : FaultFree e
  fits : Fits store.catalog.nextPageId.toNat
  pageId_pos : 0 < store.catalog.nextPageId.toNat

section Calls

variable {store : CatalogStore FileId} {tx : Transaction FileId} {d e : Disk}

theorem toNat_succ {n : UInt64} (h : Fits n.toNat) : (n + 1).toNat = n.toNat + 1 := by
  have hroom := CatalogStore.room_of_fits h
  rw [UInt64.toNat_add, UInt64.toNat_one]
  omega

theorem fits_catalogPage : Fits catalogPageId.val.toNat := fits_of_lt (by decide)

theorem JustBegun.pageId_ne (h : JustBegun store d tx e) : (⟨store.catalog.nextPageId⟩ : PageId) ≠ catalogPageId := by
  intro heq
  have hpos := h.pageId_pos
  have hzero : store.catalog.nextPageId = 0 := congrArg PageId.val heq
  rw [hzero] at hpos
  exact Nat.lt_irrefl _ hpos

theorem JustBegun.withCatalog (h : JustBegun store d tx e) (c : Catalog) :
    ({ store with catalog := c } : CatalogStore FileId) = ⟨dataFile, c⟩ := by
  rw [h.file]

/-- A call that has staged a page under a new id, and the catalog page. -/
theorem JustBegun.copies_new (h : JustBegun store d tx e) {α : Type} (a : α) {p q : Page} {c : Catalog}
    (hp : p.ValidAs ⟨store.catalog.nextPageId⟩) (hq : q.ValidAs catalogPageId) {f g : Disk}
    (hf : f.data = d.data) (hc : c.nextPageId = store.catalog.nextPageId + 1)
    (hg : FaultFree g) (hdata : g.data = (d.data.putPage p.number p).putPage q.number q) :
    Copies store.catalog.nextPageId.toNat
      (.ok a, (Transaction.withStaged (Transaction.withStaged { tx with workingCatalog := c }
        ⟨store.catalog.nextPageId⟩ p) catalogPageId q, f))
      (.ok a, (⟨dataFile, c⟩, g)) := by
  have hnew : c.nextPageId.toNat = store.catalog.nextPageId.toNat + 1 := by
    rw [hc]
    exact toNat_succ h.fits
  set tx₁ : Transaction FileId := { tx with workingCatalog := c } with htx₁
  have hempty : tx₁.dirtyPages = ∅ := h.nothing
  have hne := h.pageId_ne
  have hfits : Fits catalogPageId.val.toNat := fits_catalogPage
  generalize catalogPageId = k at *
  have hperm := Transaction.perm_withStaged_withStaged hempty hne p q
  refine Copies.done hg ?_ ?_ hperm.length_eq.le ?_ ?_
  · rw [Transaction.putPages_withStaged_withStaged hempty hp hq hne h.fits hfits, hf, hdata]
  · intro page hpage
    rcases List.mem_pair.1 (hperm.mem_iff.1 hpage) with rfl | rfl
    · rwa [hq.number]
    · rw [hp.number]
      exact h.fits
  · change _ ≤ c.nextPageId.toNat
    omega
  · change c.nextPageId.toNat ≤ _
    rw [hperm.length_eq, hnew]
    exact Nat.add_le_add_left (Nat.le_succ 1) _

/-- A call that has staged one page only. -/
theorem JustBegun.copies_old (h : JustBegun store d tx e) {α : Type} (a : α) {pageId : PageId} {q : Page}
    (hq : q.ValidAs pageId) (hfits : Fits pageId.val.toNat) {f g : Disk} (hf : f.data = d.data)
    (hg : FaultFree g) (hdata : g.data = d.data.putPage q.number q) :
    Copies store.catalog.nextPageId.toNat (.ok a, (tx.withStaged pageId q, f)) (.ok a, (store, g)) := by
  have hstaged := Transaction.stagedPages_withStaged_of_empty h.nothing pageId q
  have hcatalog : (tx.withStaged pageId q).workingCatalog = store.catalog := h.catalog
  have hstore : store = ⟨dataFile, (tx.withStaged pageId q).workingCatalog⟩ := by
    rw [hcatalog, ← h.withCatalog store.catalog]
  have hpages : g.data = f.data.putPages (tx.withStaged pageId q).stagedPages := by
    rw [hstaged, hdata, hf]
    rfl
  have hall : ∀ page ∈ (tx.withStaged pageId q).stagedPages, Fits page.number := by
    intro page hpage
    rw [hstaged, List.mem_singleton] at hpage
    rw [hpage, hq.number]
    exact hfits
  have hfew : (tx.withStaged pageId q).stagedPages.length ≤ 2 := by
    rw [hstaged]
    exact Nat.le_succ 1
  have hgrows : store.catalog.nextPageId.toNat ≤
      (tx.withStaged pageId q).workingCatalog.nextPageId.toNat := by
    rw [hcatalog]
  have hids : (tx.withStaged pageId q).workingCatalog.nextPageId.toNat ≤
      store.catalog.nextPageId.toNat + (tx.withStaged pageId q).stagedPages.length := by
    rw [hcatalog]
    exact Nat.le_add_right _ _
  have hdone := Copies.done (a := a) hg hpages hall hfew hgrows hids
  rwa [← hstore] at hdone

theorem createTable_copies (h : JustBegun store d tx e) (name : String) (columns : List ColumnDef) :
    Copies store.catalog.nextPageId.toNat (Transaction.createTable name columns (tx, e))
      (CatalogStore.createTable name columns (store, d)) := by
  have hactive : Transaction.ensureActive (tx, e) = (.ok (), (tx, e)) :=
    Transaction.ensureActive_of_active h.active
  by_cases hpass : store.catalog.Creatable name columns
  swap
  · obtain ⟨stop, hmetadata⟩ := Catalog.createTableMetadata_of_not hpass
    rw [CatalogStore.createTable, Exec.bind_of_error (CatalogStore.onCatalog_of_eq hmetadata),
      Transaction.createTable, Exec.bind_of_ok hactive,
      Exec.bind_of_error (Transaction.onCatalog_of_eq h.catalog hmetadata)]
    exact Copies.failed
  have hmetadata := Catalog.createTableMetadata_eq hpass
  rw [if_pos (CatalogStore.room_of_fits h.fits)] at hmetadata
  have hmetadata' : Catalog.createTableMetadata name columns tx.workingCatalog =
      (.ok (⟨store.catalog.nextRelationId⟩, ⟨store.catalog.nextPageId⟩), store.catalog.withTable name columns) := by
    rw [h.catalog, hmetadata]
  have hvalid := CatalogStore.newPage_validAs ⟨store.catalog.nextPageId⟩
  rcases hpage : (store.catalog.withTable name columns).toPage with stop | page
  · have hwrite := @CatalogStore.onPageFile_writePage
      { store with catalog := store.catalog.withTable name columns } d _ _ h.file h.direct hvalid h.fits
    rw [CatalogStore.createTable_of_metadata hmetadata, Exec.bind_of_ok hwrite,
      Exec.bind_of_error (@CatalogStore.saveCatalog_of_error
        { store with catalog := store.catalog.withTable name columns } _ _ hpage),
      Transaction.createTable_of_metadata h.active hmetadata',
      Exec.bind_of_error (Transaction.markCatalogDirty_of_error hpage)]
    exact Copies.failed
  · have hdirty : Transaction.markCatalogDirty (Transaction.withStaged
        { tx with workingCatalog := store.catalog.withTable name columns } ⟨store.catalog.nextPageId⟩
        (Page.new ⟨store.catalog.nextPageId⟩ .heap), e) = (.ok (), _) :=
      Transaction.markCatalogDirty_of_fits hpage
    rw [Transaction.createTable_of_metadata h.active hmetadata', Exec.bind_of_ok hdirty,
      CatalogStore.createTable_of_fits h.file h.direct hpass h.fits hpage, h.withCatalog]
    refine h.copies_new _ hvalid (Catalog.toPage_validAs hpage) h.data rfl ?_ ?_
    · exact CatalogStore.faultFree_withPage (CatalogStore.faultFree_withPage h.direct _) _
    · rw [data_withPage, data_withPage]

/-- The row goes into the same page on both sides, or no page takes it, or the same error
comes up. -/
theorem insertIntoPages_copies (bytes : List UInt8) (pageIds : List PageId)
    (hfile : tx.manager.store.pageFile = dataFile) (hempty : tx.dirtyPages = ∅) :
    ∀ {d e : Disk}, SameContents d e →
    (∃ d' e', CatalogStore.insertIntoPages bytes dataFile pageIds d = (.ok none, d') ∧
      Transaction.insertIntoPages bytes pageIds (tx, e) = (.ok none, (tx, e')) ∧
      OnlyReads d d' ∧ OnlyReads e e') ∨
    (∃ pageId slotId q d' e', CatalogStore.insertIntoPages bytes dataFile pageIds d =
        (.ok (some ⟨pageId, slotId⟩), d'.withPage q) ∧
      Transaction.insertIntoPages bytes pageIds (tx, e) =
        (.ok (some ⟨pageId, slotId⟩), (tx.withStaged pageId q, e')) ∧
      q.ValidAs pageId ∧ Fits pageId.val.toNat ∧ OnlyReads d d' ∧ OnlyReads e e') ∨
    (∃ stop d' t, CatalogStore.insertIntoPages bytes dataFile pageIds d = (.error stop, d') ∧
      Transaction.insertIntoPages bytes pageIds (tx, e) = (.error stop, t)) := by
  induction pageIds with
  | nil => exact fun {d e} _ => Or.inl ⟨d, e, rfl, rfl, OnlyReads.refl d, OnlyReads.refl e⟩
  | cons pageId pageIds ih =>
      intro d e h
      have hload : Transaction.loadPage pageId (tx, e) = ((dataFile.readPage pageId e).1,
          (tx, (dataFile.readPage pageId e).2)) := by
        have hnone : tx.dirtyPages[pageId]? = none := by
          rw [hempty]
          rfl
        rw [Transaction.loadPage_apply, hnone]
        simp only [Exec.onRight_apply, hfile]
      have hsame := (readPage_respects pageId d e h).1
      have hreads' := readPage_onlyReads dataFile pageId e
      rcases CatalogStore.readPage_cases h.1 pageId with ⟨page, d', hread, hstored, hreads⟩ |
        ⟨stop, d', hread, -, -⟩
      swap
      · rw [hread] at hsame
        rw [hsame] at hload
        exact Or.inr (Or.inr ⟨stop, d', _, Exec.bind_of_error hread, Exec.bind_of_error hload⟩)
      rw [hread] at hsame
      rw [hsame] at hload
      generalize (dataFile.readPage pageId e).2 = e' at hload hreads'
      obtain ⟨-, header, hvalid, hid⟩ := storedPage_eq_some.1 hstored
      rw [CatalogStore.insertIntoPages, Exec.bind_of_ok hread, Transaction.insertIntoPages,
        Exec.bind_of_ok hload]
      rcases Page.insertRecord_spec hvalid bytes with ⟨message, hfail⟩ | ⟨i, q, k, hok, hins⟩
      · rw [hfail]
        rcases ih (h.reads hreads hreads') with ⟨d'', e'', hrun, hrun', hd, he⟩ |
          ⟨other, slotId, q, d'', e'', hrun, hrun', hq, hfits, hd, he⟩ | herror
        · exact Or.inl ⟨d'', e'', hrun, hrun', hreads.trans hd, hreads'.trans he⟩
        · exact Or.inr (Or.inl ⟨other, slotId, q, d'', e'', hrun, hrun', hq, hfits, hreads.trans hd,
            hreads'.trans he⟩)
        · exact Or.inr (Or.inr herror)
      · rw [hok]
        have hq : q.ValidAs pageId := ⟨k, hins.valid, hins.pageId.trans hid⟩
        have hfits := CatalogStore.fits_of_stored hstored
        have hwrite := writePage_of_faultFree dataFile_file (hreads.faultFree h.1) hq
          (by rwa [hq.number])
        exact Or.inr (Or.inl ⟨pageId, ⟨i⟩, q, d', e', Exec.bind_of_ok hwrite, rfl, hq, hfits, hreads,
          hreads'⟩)

/-- What is left to do inside a transaction once the row has a page id of its own. -/
def Transaction.addPage (relationId : RelationId) (bytes : List UInt8) (pageId : PageId) :
    Db (Transaction FileId × Disk) RowId := do
  let (slotId, page) ← Exec.toExcept (Page.insertRecord bytes) (Page.new pageId .heap)
  Transaction.onCatalog (Catalog.appendHeapPage relationId pageId)
  Transaction.stage pageId page
  Transaction.markCatalogDirty
  return ⟨pageId, slotId⟩

theorem Transaction.addPage_of_insert {relationId : RelationId} {bytes : List UInt8}
    {pageId : PageId} {slotId : SlotId} {q : Page}
    (h : Page.insertRecord bytes (Page.new pageId .heap) = (.ok slotId, q)) (s : Transaction FileId × Disk) :
    Transaction.addPage relationId bytes pageId s = (do
      Transaction.onCatalog (Catalog.appendHeapPage relationId pageId)
      Transaction.stage pageId q
      Transaction.markCatalogDirty
      return ⟨pageId, slotId⟩ : Db (Transaction FileId × Disk) RowId) s := by
  rw [Transaction.addPage, Exec.toExcept, h]
  rfl

/-- A row that no page has taken gets the same page on both sides. -/
theorem addPage_copies (h : JustBegun store d tx e) (relationId : RelationId) (bytes : List UInt8)
    {c : Catalog} (hc : c.nextPageId = store.catalog.nextPageId + 1) :
    Copies store.catalog.nextPageId.toNat
      (Transaction.addPage relationId bytes ⟨store.catalog.nextPageId⟩ ({ tx with workingCatalog := c }, e))
      (CatalogStore.addPage relationId bytes ⟨store.catalog.nextPageId⟩ ({ store with catalog := c }, d)) := by
  rw [h.withCatalog]
  rcases hinsert : Page.insertRecord bytes (Page.new ⟨store.catalog.nextPageId⟩ .heap) with
    ⟨stop | slotId, q⟩
  · have hlift : Exec.toExcept (Page.insertRecord bytes) (Page.new ⟨store.catalog.nextPageId⟩ .heap) =
        .error stop := by
      rw [Exec.toExcept, hinsert]
    rw [CatalogStore.addPage, Transaction.addPage, hlift]
    exact Copies.failed
  have hq := Transaction.insertRecord_validAs (CatalogStore.newPage_validAs _) hinsert
  have hwrite := @CatalogStore.onPageFile_writePage ⟨dataFile, c⟩ d _ _ rfl h.direct hq h.fits
  rw [CatalogStore.addPage_of_insert hinsert, Exec.bind_of_ok hwrite,
    Transaction.addPage_of_insert hinsert]
  rcases happend : Catalog.appendHeapPage relationId ⟨store.catalog.nextPageId⟩ c with ⟨stop | ⟨⟩, c'⟩
  · rw [Exec.bind_of_error (@CatalogStore.onCatalog_of_eq _ ⟨dataFile, c⟩ _ _ _ _ happend),
      Exec.bind_of_error (@Transaction.onCatalog_of_eq { tx with workingCatalog := c } e _ _ _ _ _ rfl happend)]
    exact Copies.failed
  have hc' : c'.nextPageId = store.catalog.nextPageId + 1 :=
    ((CatalogStore.appendHeapPage_nextPageId relationId _).rel happend).trans hc
  rw [Exec.bind_of_ok (@CatalogStore.onCatalog_of_eq _ ⟨dataFile, c⟩ _ _ _ _ happend),
    Exec.bind_of_ok (@Transaction.onCatalog_of_eq { tx with workingCatalog := c } e _ _ _ _ _ rfl happend)]
  set tx' : Transaction FileId :=
    Transaction.withStaged { tx with workingCatalog := c' } ⟨store.catalog.nextPageId⟩ q with htx'
  have hstage : Transaction.stage ⟨store.catalog.nextPageId⟩ q ({ tx with workingCatalog := c' }, e) =
      (.ok (), (tx', e)) := rfl
  rw [Exec.bind_of_ok hstage]
  rcases hpage : c'.toPage with stop | page
  · have hdirty : Transaction.markCatalogDirty (tx', e) = (.error stop, (tx', e)) :=
      Transaction.markCatalogDirty_of_error hpage
    rw [Exec.bind_of_error (@CatalogStore.saveCatalog_of_error ⟨dataFile, c'⟩ _ _ hpage),
      Exec.bind_of_error hdirty]
    exact Copies.failed
  · have hsave := @CatalogStore.saveCatalog_of_ok ⟨dataFile, c'⟩ (d.withPage q) page rfl
      (CatalogStore.faultFree_withPage h.direct q) hpage
    have hdirty : Transaction.markCatalogDirty (tx', e) =
      (.ok (), (tx'.withStaged catalogPageId page, e)) := Transaction.markCatalogDirty_of_fits hpage
    rw [Exec.bind_of_ok hsave, Exec.bind_of_ok hdirty]
    refine h.copies_new _ hq (Catalog.toPage_validAs hpage) h.data hc' ?_ ?_
    · exact CatalogStore.faultFree_withPage (CatalogStore.faultFree_withPage h.direct _) _
    · rw [data_withPage, data_withPage]

theorem JustBegun.contents (h : JustBegun store d tx e) : SameContents d e := ⟨h.direct, h.transactional, h.data⟩

theorem JustBegun.reads (h : JustBegun store d tx e) {d' e' : Disk} (hd : OnlyReads d d')
    (he : OnlyReads e e') : JustBegun store d' tx e' :=
  { h with
    data := (h.contents.reads hd he).2.2
    direct := hd.faultFree h.direct
    transactional := he.faultFree h.transactional }

/-- The row is put into a page that the transaction sees. -/
def Transaction.insertExisting (relationId : RelationId) (bytes : List UInt8) :
    Db (Transaction FileId × Disk) (Option RowId) := do
  Transaction.ensureActive
  let tx ← Transaction.current
  tx.workingCatalog.ensureHeapRelation relationId
  let pageIds ← tx.workingCatalog.heapPages relationId
  Transaction.insertIntoPages bytes pageIds

theorem Transaction.insertRow_eq (relationId : RelationId) (bytes : List UInt8) :
    (Transaction.insertRow relationId bytes : Db (Transaction FileId × Disk) RowId) = (do
      let placed ← Transaction.insertExisting relationId bytes
      match placed with
      | some rowId => return rowId
      | none => do
          let pageId ← Transaction.onCatalog Catalog.allocatePageId
          Transaction.addPage relationId bytes pageId) := by
  funext s
  rw [Transaction.insertRow, Transaction.insertExisting]
  simp only [Exec.bind_assoc]
  rfl

/-- Both calls look through the same pages. -/
theorem JustBegun.insertExisting (h : JustBegun store d tx e) (relationId : RelationId) (bytes : List UInt8) :
    (∃ stop s t, CatalogStore.insertExisting relationId bytes (store, d) = (.error stop, s) ∧
      s.1 = store ∧ Transaction.insertExisting relationId bytes (tx, e) = (.error stop, t)) ∨
    ∃ pageIds, CatalogStore.insertExisting relationId bytes (store, d) =
        Exec.onRight (CatalogStore.insertIntoPages bytes dataFile pageIds) (store, d) ∧
      Transaction.insertExisting relationId bytes (tx, e) =
        Transaction.insertIntoPages bytes pageIds (tx, e) := by
  have hactive : Transaction.ensureActive (tx, e) = (.ok (), (tx, e)) :=
    Transaction.ensureActive_of_active h.active
  rcases hensure : store.catalog.ensureHeapRelation relationId with stop | ⟨⟩
  · refine Or.inl ⟨stop, (store, d), (tx, e), ?_, rfl, ?_⟩
    · simp only [CatalogStore.insertExisting, Exec.bind_apply, Exec.get_apply, Exec.liftM_apply, hensure]
    · simp only [Transaction.insertExisting, Exec.bind_apply, hactive, Transaction.current_apply,
        Exec.liftM_apply, h.catalog, hensure]
  rcases hpages : store.catalog.heapPages relationId with stop | pageIds
  · refine Or.inl ⟨stop, (store, d), (tx, e), ?_, rfl, ?_⟩
    · simp only [CatalogStore.insertExisting, Exec.bind_apply, Exec.get_apply, Exec.liftM_apply, hensure,
        hpages]
    · simp only [Transaction.insertExisting, Exec.bind_apply, hactive, Transaction.current_apply,
        Exec.liftM_apply, h.catalog, hensure, hpages]
  · refine Or.inr ⟨pageIds, ?_, ?_⟩
    · simp only [CatalogStore.insertExisting, CatalogStore.onPageFile, Exec.bind_apply, Exec.get_apply,
        Exec.liftM_apply, hensure, hpages, h.file]
    · simp only [Transaction.insertExisting, Exec.bind_apply, hactive, Transaction.current_apply,
        Exec.liftM_apply, h.catalog, hensure, hpages]

theorem insertRow_copies (h : JustBegun store d tx e) (relationId : RelationId) (bytes : List UInt8) :
    Copies store.catalog.nextPageId.toNat (Transaction.insertRow relationId bytes (tx, e))
      (CatalogStore.insertRow relationId bytes (store, d)) := by
  have hpageFile : tx.manager.store.pageFile = dataFile := by
    rw [h.manager, h.file]
  rw [Transaction.insertRow_eq]
  rcases h.insertExisting relationId bytes with ⟨stop, ⟨_, d'⟩, t, hdirect, rfl, hstaged⟩ |
    ⟨pageIds, hdirect, hstaged⟩
  · rw [CatalogStore.insertRow_of_error hdirect, Exec.bind_of_error hstaged]
    exact Copies.failed
  rw [Exec.onRight_apply] at hdirect
  rcases insertIntoPages_copies bytes pageIds hpageFile h.nothing h.contents with
    ⟨d', e', hrun, hrun', hd, he⟩ | ⟨pageId, slotId, q, d', e', hrun, hrun', hq, hfits, hd, he⟩ |
    ⟨stop, d', t, hrun, hrun'⟩
  · -- No page takes the row; it gets a page of its own.
    rw [hrun] at hdirect
    rw [hrun'] at hstaged
    have hallocate := Catalog.allocatePageId_of_room (CatalogStore.room_of_fits h.fits)
    rw [CatalogStore.insertRow_of_none hdirect,
      Exec.bind_of_ok (CatalogStore.onCatalog_of_eq hallocate), Exec.bind_of_ok hstaged]
    refine Eq.subst (motive := fun r => Copies _ r _)
      (Exec.bind_of_ok (Transaction.onCatalog_of_eq h.catalog hallocate)).symm ?_
    exact addPage_copies (h.reads hd he) relationId bytes rfl
  · rw [hrun] at hdirect
    rw [hrun'] at hstaged
    rw [CatalogStore.insertRow_of_some hdirect, Exec.bind_of_ok hstaged]
    refine h.copies_old _ hq hfits (he.files.data.trans h.data) ?_ ?_
    · exact CatalogStore.faultFree_withPage (hd.faultFree h.direct) q
    · rw [data_withPage, hd.files.data]
  · rw [hrun] at hdirect
    rw [hrun'] at hstaged
    rw [CatalogStore.insertRow_of_error hdirect, Exec.bind_of_error hstaged]
    exact Copies.failed

end Calls

/-! ## Runs -/

/-- Fewer sequence numbers are left than one call may need. -/
def LogShort (d : Disk) : Prop := 2 ^ 64 ≤ d.wal.bytes.length + 10000

/-- The two stores hold the same database. Every page id that has been handed out has been
logged, so while the log has room the page ids have a place in the file. -/
structure Matching (s : CatalogStore FileId × Disk) (t : TransactionalStore FileId × Disk) :
    Prop where
  store : t.1.store = s.1
  data : t.2.data = s.2.data
  file : s.1.pageFile = dataFile
  direct : FaultFree s.2
  log : AtTail t.1.wal t.2
  free : t.1.activeWriter = false
  txIds : t.1.nextTxId.toNat ≤ t.2.wal.bytes.length + 1
  pageIds : s.1.catalog.nextPageId.toNat * pageSize ≤ t.2.wal.bytes.length + pageSize
  pageId_pos : 0 < s.1.catalog.nextPageId.toNat

section Matching

variable {s : CatalogStore FileId × Disk} {t : TransactionalStore FileId × Disk} {α : Type}

theorem Matching.fits (h : Matching s t) (hroom : ¬ LogShort t.2) :
    Fits s.1.catalog.nextPageId.toNat := by
  have hids := h.pageIds
  rw [LogShort] at hroom
  refine fits_of_end_lt ?_
  simp only [pageSize] at hids ⊢
  omega

theorem totalLen_imageKinds (txId : TxId) (pages : List Page) :
    totalLen (imageKinds txId pages) = pages.length * (Wal.headerSize + pageSize) := by
  induction pages with
  | nil => exact (Nat.zero_mul _).symm
  | cons page pages ih =>
      have hlen : (WalRecordKind.pageImage txId page.id page).encodedLen =
          Wal.headerSize + pageSize := congrArg (Wal.headerSize + ·) page.size_eq
      rw [imageKinds, List.map_cons, totalLen_cons, ← imageKinds, ih, hlen, List.length_cons,
        Nat.succ_mul, Nat.add_comm]

/-- What the log of one call needs. -/
theorem totalLen_commit (txId : TxId) {pages : List Page} (hfew : pages.length ≤ 2) :
    pages.length * pageSize ≤ totalLen (imageKinds txId pages ++ [.commitTx txId]) ∧
    headerSize + totalLen (imageKinds txId pages ++ [.commitTx txId]) < 10000 ∧
    0 < headerSize := by
  rw [totalLen_append, totalLen_imageKinds]
  have hmarker : totalLen [.commitTx txId] = headerSize := rfl
  rw [hmarker]
  simp only [headerSize, pageSize]
  omega

/-- Page ids are handed out no faster than page images are logged. -/
theorem room_of_logged {ids ids' few len len' cost : Nat} (h : ids * pageSize ≤ len + pageSize)
    (hids : ids' ≤ ids + few) (hfew : few * pageSize ≤ cost) (hlen : len + cost ≤ len') :
    ids' * pageSize ≤ len' + pageSize :=
  calc ids' * pageSize
    _ ≤ (ids + few) * pageSize := Nat.mul_le_mul_right _ hids
    _ = ids * pageSize + few * pageSize := Nat.add_mul _ _ _
    _ ≤ (len + pageSize) + cost := Nat.add_le_add h hfew
    _ = (len + cost) + pageSize := Nat.add_right_comm _ _ _
    _ ≤ len' + pageSize := Nat.add_le_add_right hlen _

theorem Matching.begin (h : Matching s t) (hroom : ¬ LogShort t.2) : ∃ w e,
    TransactionalStore.begin t = (.ok (t.1.started w), (t.1.advanced w true, e)) ∧
      Grown t.2 headerSize w e ∧ JustBegun s.1 s.2 (t.1.started w) e := by
  have hids := h.txIds
  have hfits := h.fits hroom
  rw [LogShort] at hroom
  obtain ⟨w, e, hbegin, hgrown⟩ := TransactionalStore.begin_of_atTail h.log h.free (by omega)
    (show t.2.wal.bytes.length + headerSize < 2 ^ 64 by simp only [headerSize]; omega)
  refine ⟨w, e, hbegin, hgrown, rfl, h.store, ?_, rfl, hgrown.data.trans h.data, h.file, h.direct,
    hgrown.atTail.faultFree, hfits, h.pageId_pos⟩
  rw [← h.store]
  rfl

/-- The call in the transaction has left the log and the store alone. -/
theorem Matching.logged (h : Matching s t) {w : WalWriter FileId} {e f : Disk} {tx : Transaction FileId}
    (hgrown : Grown t.2 headerSize w e) (hstep : Transaction.Staging (t.1.started w, e) (tx, f)) :
    AtTail tx.manager.wal f ∧ tx.manager.store = s.1 ∧
      f.wal.bytes.length = t.2.wal.bytes.length + headerSize := by
  have hmanager : tx.manager = t.1.advanced w true := hstep.manager
  rw [hmanager]
  refine ⟨⟨hgrown.atTail.file, ?_, hstep.disk.faultFree hgrown.atTail.faultFree⟩, h.store, ?_⟩
  · rw [hstep.disk.files.wal]
    exact hgrown.atTail.next
  · rw [hstep.disk.files.wal, hgrown.length]

theorem Matching.toNat_nextTxId (h : Matching s t) (hroom : ¬ LogShort t.2) :
    (t.1.nextTxId + 1).toNat = t.1.nextTxId.toNat + 1 := by
  have htx := h.txIds
  rw [LogShort] at hroom
  rw [UInt64.toNat_add, UInt64.toNat_one]
  omega

/-- A transaction that has failed is dropped; the log has its first record. -/
theorem Matching.dropped (h : Matching s t) (hroom : ¬ LogShort t.2) {w : WalWriter FileId} {e f : Disk}
    {tx : Transaction FileId} (hgrown : Grown t.2 headerSize w e)
    (hstep : Transaction.Staging (t.1.started w, e) (tx, f)) {s' : CatalogStore FileId × Disk}
    (hfile : s'.1.pageFile = dataFile) (hdirect : FaultFree s'.2) (hcatalog : s'.1.catalog = s.1.catalog)
    (hdata : s'.2.data = s.2.data) : Matching s' (tx.drop, f) := by
  obtain ⟨hlog, hstore, hlength⟩ := h.logged hgrown hstep
  have hdrop : tx.drop = tx.released tx.manager.wal := Transaction.drop_withWal hstep.state _
  have hsame : s'.1 = s.1 := by
    rw [show s'.1 = ⟨s'.1.pageFile, s'.1.catalog⟩ from rfl, hfile, hcatalog, ← h.file]
  have hmanager : tx.manager = t.1.advanced w true := hstep.manager
  have hnext := h.toNat_nextTxId hroom
  have htx := h.txIds
  have hids := h.pageIds
  have hpos : 0 < headerSize := by decide
  rw [hdrop]
  refine ⟨hstore.trans hsame.symm, ?_, hfile, hdirect, hlog, rfl, ?_, ?_, ?_⟩
  · change f.data = s'.2.data
    rw [hstep.disk.files.data, hgrown.data, h.data, hdata]
  · change tx.manager.nextTxId.toNat ≤ f.wal.bytes.length + 1
    rw [hmanager]
    change (t.1.nextTxId + 1).toNat ≤ _
    omega
  · change s'.1.catalog.nextPageId.toNat * pageSize ≤ f.wal.bytes.length + pageSize
    rw [hsame]
    omega
  · rw [hsame]
    exact h.pageId_pos

/-- A call in a transaction of its own does what the call of the catalog store does. -/
theorem Matching.autocommit (h : Matching s t) (hroom : ¬ LogShort t.2)
    {m : Db (Transaction FileId × Disk) α} {n : Db (CatalogStore FileId × Disk) α}
    (hstaging : Exec.Preserves Transaction.Staging m) (honly : Exec.Preserves CatalogStore.OnlyData n)
    (hcopies : ∀ {tx e}, JustBegun s.1 s.2 tx e → Copies s.1.catalog.nextPageId.toNat (m (tx, e)) (n s)) :
    (∃ a s' t', n s = (.ok a, s') ∧ TransactionalStore.withTransaction (do
        let a ← m
        Transaction.commit
        return a) t = (.ok a, t') ∧ Matching s' t' ∧
      t'.2.wal.bytes.length ≤ t.2.wal.bytes.length + 10000) ∨
    ∃ stop s' t', n s = (.error stop, s') ∧ TransactionalStore.withTransaction (do
        let a ← m
        Transaction.commit
        return a) t = (.error stop, t') ∧
      (s'.1.catalog = s.1.catalog → s'.2.data = s.2.data → Matching s' t') := by
  obtain ⟨w, e, hbegin, hgrown, hfresh⟩ := h.begin hroom
  have hpair := hcopies hfresh
  rw [TransactionalStore.withTransaction_of_begin hbegin]
  rcases hm : m (t.1.started w, e) with ⟨r, tx, f⟩
  rcases hn : n s with ⟨r', s'⟩
  rw [hm, hn] at hpair
  have hstep : Transaction.Staging (t.1.started w, e) (tx, f) := hstaging.rel hm
  have hnext := h.toNat_nextTxId hroom
  obtain ⟨hlog, hstore, hlength⟩ := h.logged hgrown hstep
  cases hpair with
  | failed =>
      obtain ⟨hfile, hsame⟩ := honly.rel hn h.file
      have hdirect : FaultFree s'.2 := fun k => by
        rw [hsame.faults]
        exact h.direct k
      rw [Exec.bind_of_error hm]
      exact Or.inr ⟨_, s', _, rfl, rfl, h.dropped hroom hgrown hstep hfile hdirect⟩
  | @done a _ _ g hg hdata hfits hfew hgrows hids =>
      have hempty : (t.1.started w).StagedValid := fun id page hpage => by cases hpage
      obtain ⟨hleast, hmost, hpos⟩ := totalLen_commit tx.txId hfew
      rw [LogShort] at hroom
      have hfile : tx.manager.store.pageFile = dataFile := by
        rw [hstore, h.file]
      obtain ⟨w', e', hcommit, hlog', hdata', hlength'⟩ := Transaction.commit_of_atTail hlog hstep.state
        hfile (hstep.staged hempty) hfits (by omega)
      refine Or.inl ⟨a, _, (tx.published w', e'), rfl, ?_, ?_, ?_⟩
      · rw [Exec.bind_of_ok hm, Exec.bind_of_ok hcommit]
        rfl
      · refine ⟨?_, ?_, rfl, hg, hlog', rfl, ?_, ?_, ?_⟩
        · change (⟨tx.manager.store.pageFile, tx.workingCatalog⟩ : CatalogStore FileId) = _
          rw [hfile]
        · change e'.data = g.data
          rw [hdata', hdata]
        · have hmanager : tx.manager = t.1.advanced w true := hstep.manager
          have htx := h.txIds
          change tx.manager.nextTxId.toNat ≤ e'.wal.bytes.length + 1
          rw [hmanager]
          change (t.1.nextTxId + 1).toNat ≤ _
          omega
        · refine room_of_logged h.pageIds hids hleast ?_
          rw [hlength', hlength]
          exact Nat.add_le_add_right (Nat.le_add_right _ _) _
        · exact lt_of_lt_of_le h.pageId_pos hgrows
      · change e'.wal.bytes.length ≤ _
        omega

end Matching

/-- A call on a heap table. -/
inductive HeapOp where
  | createTable (name : String) (columns : List ColumnDef)
  | insertRow (relationId : RelationId) (bytes : List UInt8)

/-- The id that a call on a heap table returns. -/
inductive HeapId where
  | relation (id : RelationId)
  | row (id : RowId)

namespace HeapOp

/-- The call of the catalog store. -/
def direct : HeapOp → Db (CatalogStore FileId × Disk) HeapId
  | createTable name columns => do
      let relationId ← CatalogStore.createTable name columns
      return .relation relationId
  | insertRow relationId bytes => do
      let rowId ← CatalogStore.insertRow relationId bytes
      return .row rowId

/-- The same call as a transaction of its own. -/
def autocommit : HeapOp → Db (TransactionalStore FileId × Disk) HeapId
  | createTable name columns => do
      let relationId ← TransactionalStore.createTableAutocommit name columns
      return .relation relationId
  | insertRow relationId bytes => do
      let rowId ← TransactionalStore.insertRowAutocommit relationId bytes
      return .row rowId

end HeapOp

/-- The two stores show the same catalog, the same data file and the same rows. -/
structure SameView (s : CatalogStore FileId × Disk) (t : TransactionalStore FileId × Disk) :
    Prop where
  catalog : t.1.store.catalog = s.1.catalog
  data : t.2.data = s.2.data
  scans : ∀ relationId, (t.1.fullScan relationId t.2).1 = (s.1.fullScan relationId s.2).1

/-- Both stores give the same result for each call and show the same around it, as long as the log
has room and no call of the catalog store has failed with a trace. -/
def Agree : List HeapOp → CatalogStore FileId × Disk → TransactionalStore FileId × Disk → Prop
  | [], s, t => SameView s t
  | op :: ops, s, t => SameView s t ∧ (¬ LogShort t.2 → (op.autocommit t).1 = (op.direct s).1 ∧
      (CatalogStore.AtomicOnError op.direct s → Agree ops (op.direct s).2 (op.autocommit t).2))

section Runs

variable {s : CatalogStore FileId × Disk} {t : TransactionalStore FileId × Disk}

theorem Matching.sameView (h : Matching s t) : SameView s t where
  catalog := by rw [h.store]
  data := h.data
  scans relationId := by
    have hsame : SameContents s.2 t.2 := ⟨h.direct, h.log.faultFree, h.data⟩
    have hstore : s.1 = ⟨dataFile, s.1.catalog⟩ := by
      rw [← h.file]
    rw [TransactionalStore.fullScan, h.store, hstore]
    exact (fullScan_respects s.1.catalog relationId s.2 t.2 hsame).1

theorem Matching.op (h : Matching s t) (hroom : ¬ LogShort t.2) (op : HeapOp) :
    (∃ id s' t', op.direct s = (.ok id, s') ∧ op.autocommit t = (.ok id, t') ∧ Matching s' t' ∧
      t'.2.wal.bytes.length ≤ t.2.wal.bytes.length + 10000) ∨
    ∃ stop s' t', op.direct s = (.error stop, s') ∧ op.autocommit t = (.error stop, t') ∧
      (s'.1.catalog = s.1.catalog → s'.2.data = s.2.data → Matching s' t') := by
  cases op with
  | createTable name columns =>
      rcases h.autocommit hroom (Transaction.createTable_staging name columns)
        (CatalogStore.createTable_onlyData name columns)
        (fun hfresh => createTable_copies hfresh name columns) with
        ⟨relationId, s', t', hdirect, hauto, hmatching, hlength⟩ | ⟨stop, s', t', hdirect, hauto, hkept⟩
      · exact Or.inl ⟨.relation relationId, s', t', Exec.bind_of_ok hdirect, Exec.bind_of_ok hauto,
          hmatching, hlength⟩
      · exact Or.inr ⟨stop, s', t', Exec.bind_of_error hdirect, Exec.bind_of_error hauto, hkept⟩
  | insertRow relationId bytes =>
      rcases h.autocommit hroom (Transaction.insertRow_staging relationId bytes)
        (CatalogStore.insertRow_onlyData relationId bytes)
        (fun hfresh => insertRow_copies hfresh relationId bytes) with
        ⟨rowId, s', t', hdirect, hauto, hmatching, hlength⟩ | ⟨stop, s', t', hdirect, hauto, hkept⟩
      · exact Or.inl ⟨.row rowId, s', t', Exec.bind_of_ok hdirect, Exec.bind_of_ok hauto, hmatching,
          hlength⟩
      · exact Or.inr ⟨stop, s', t', Exec.bind_of_error hdirect, Exec.bind_of_error hauto, hkept⟩

theorem Matching.agree (ops : List HeapOp) : ∀ {s : CatalogStore FileId × Disk}
    {t : TransactionalStore FileId × Disk}, Matching s t → Agree ops s t := by
  induction ops with
  | nil => exact fun h => h.sameView
  | cons op ops ih =>
      intro s t h
      refine ⟨h.sameView, fun hroom => ?_⟩
      rcases h.op hroom op with ⟨id, s', t', hdirect, hauto, hmatching, -⟩ |
        ⟨stop, s', t', hdirect, hauto, hkept⟩
      · rw [hdirect, hauto]
        exact ⟨rfl, fun _ => ih hmatching⟩
      · rw [hdirect, hauto]
        refine ⟨rfl, fun hatomic => ?_⟩
        obtain ⟨hcatalog, hdata⟩ := hatomic stop s' hdirect
        exact ih (hkept hcatalog hdata)

/-- Opening an empty data file writes the empty catalog to page 0. -/
theorem loadOrBootstrap_of_empty {d : Disk} (hd : FaultFree d) (hdata : d.data.bytes = []) :
    ∃ page e, Catalog.empty.toPage = .ok page ∧
      Catalog.loadOrBootstrap dataFile d = (.ok Catalog.empty, e) ∧ FaultFree e ∧
      e.data = d.data.putPage page.number page ∧ e.wal = d.wal := by
  obtain ⟨page, hpage⟩ := toPage_empty
  have hvalid := Catalog.toPage_validAs hpage
  have hfits : Fits page.number := by
    rw [hvalid.number]
    exact fits_catalogPage
  have hlen : dataFile.len d = (.ok 0, d.record ⟨.data, .len, true⟩) := by
    have hzero : (d.file .data).bytes.length = 0 := congrArg List.length hdata
    simp only [PageFile.len, dataFile_file, vfs_len, len_of_faultFree hd, hzero]
    rfl
  have hrecord : FaultFree (d.record ⟨.data, .len, true⟩) := fun n => hd n
  have hwrite := writePage_of_faultFree dataFile_file hrecord hvalid hfits
  refine ⟨page, _, hpage, ?_, CatalogStore.faultFree_withPage hrecord page, data_withPage _ _, rfl⟩
  simp only [Catalog.loadOrBootstrap, Exec.bind_apply, hlen, if_pos, Catalog.save, hpage,
    Exec.liftM_apply, hwrite, Exec.pure_apply]

/-- Both stores are opened on empty data files, and match. -/
theorem matching_open {d e : Disk} (hd : FaultFree d) (he : FaultFree e) (hdata : d.data.bytes = [])
    (hdata' : e.data.bytes = []) : ∃ store d' txStore e',
    CatalogStore.open dataFile d = (.ok store, d') ∧
      openTransactionalStore .data .wal e = (.ok txStore, e') ∧ e'.wal = e.wal ∧
      store.catalog = Catalog.empty ∧
      (∃ page, d'.storedPage catalogPageId = some page ∧ Catalog.empty.toPage = .ok page) ∧
      Matching (store, d') (txStore, e') := by
  obtain ⟨page, d', hpage, hload, hfree, hwritten, -⟩ := loadOrBootstrap_of_empty hd hdata
  obtain ⟨page', e₁, hpage', hload', hfree', hwritten', hwal⟩ := loadOrBootstrap_of_empty he hdata'
  have hsame : page' = page := by
    rw [hpage] at hpage'
    cases hpage'
    rfl
  have hfiles : e.data = d.data := ext_bytes (hdata'.trans hdata.symm)
  have hlen := len_of_faultFree hfree' .wal
  have hfresh : Matching (⟨dataFile, Catalog.empty⟩, d')
      (⟨⟨dataFile, Catalog.empty⟩, ⟨.wal, ⟨⟨UInt64.ofNat (e₁.file .wal).bytes.length⟩⟩⟩, firstTxId.val, false⟩,
        e₁.record ⟨.wal, .len, true⟩) := by
    refine ⟨rfl, ?_, rfl, hfree, ⟨rfl, toNat_ofNat_length _, hfree'⟩, rfl, ?_, ?_, ?_⟩
    · change e₁.data = d'.data
      rw [hwritten', hwritten, hsame, hfiles]
    · exact Nat.le_add_left 1 _
    · exact (Nat.one_mul pageSize).le.trans (Nat.le_add_left _ _)
    · exact Nat.one_pos
  have hvalid := Catalog.toPage_validAs hpage
  have hzero : page.number = 0 := hvalid.number
  have hstored : d'.storedPage catalogPageId = some page := by
    refine storedPage_eq_some.2 ⟨?_, hvalid⟩
    rw [hwritten, hzero]
    exact holds_putPage_self fits_catalogPage
  refine ⟨_, d', _, e₁.record ⟨.wal, .len, true⟩, ?_, ?_, hwal, ?_, ⟨page, hstored, hpage⟩, hfresh⟩
  · rw [CatalogStore.open, Exec.bind_of_ok hload]
    rfl
  · rw [openTransactionalStore, CatalogStore.open, show (⟨.data⟩ : PageFile FileId) = dataFile from rfl]
    simp only [Exec.bind_apply, hload', Exec.pure_apply, WalWriter.new, vfs_len, hlen]
  · rfl

/-- Filling tables through the catalog store and through transactions of their own gives the
same ids, errors, catalogs, data files and rows, while the log has room for a call and until a
call of the catalog store fails with a trace. -/
theorem paths_agree (d e : Disk) (hd : FaultFree d) (he : FaultFree e) (hdata : d.data.bytes = [])
    (hdata' : e.data.bytes = []) : ∃ store d' txStore e',
    CatalogStore.open dataFile d = (.ok store, d') ∧
      openTransactionalStore .data .wal e = (.ok txStore, e') ∧ e'.wal = e.wal ∧
      ∀ ops, Agree ops (store, d') (txStore, e') := by
  obtain ⟨store, d', txStore, e', hopen, hopen', hwal, -, -, hmatching⟩ :=
    matching_open hd he hdata hdata'
  exact ⟨store, d', txStore, e', hopen, hopen', hwal, fun ops => hmatching.agree ops⟩

theorem paths_agree_fresh : ∃ store d' txStore e',
    CatalogStore.open dataFile fresh = (.ok store, d') ∧
      openTransactionalStore .data .wal fresh = (.ok txStore, e') ∧ e'.wal = fresh.wal ∧
      ∀ ops, Agree ops (store, d') (txStore, e') :=
  paths_agree fresh fresh fresh_faultFree fresh_faultFree rfl rfl

end Runs

end Rdbms
