import Rdbms.Tx.WriteAhead
import Rdbms.Vfs.Crash

/-!
# The history of a session

On a disk that only crashes, the log of a session is a sequence of transactions:
behind the begin marker of each stands a prefix of the images and the commit
marker it set out to write, or of its abort marker. Data pages change only under
a commit marker that a sync of the log has covered. Both facts hold at every
moment of every run, since a run under `crashAfter n` ends in the files at the
moment of the crash.
-/

namespace Rdbms

open Library Disk ByteFile

/-! ## The writer at the end of a log -/

/-- The log file holds the records, and the writer stands at its end unless the
machine is down. -/
structure WalAt (records : List WalRecord) (w : WalWriter FileId) (d : Disk) : Prop where
  file : w.file = .wal
  bytes : d.wal.bytes = encodeLog records
  log : LogFrom 0 records
  crashOnly : CrashOnly d
  synced : d.walSynced ≤ d.wal.bytes.length
  next : ¬ Down d → w.allocator.next.val.toNat = d.wal.bytes.length

/-- The data file is as before, and syncs have only been added. -/
structure OnlyLogs (d e : Disk) : Prop where
  data : e.data = d.data
  faults : e.faults = d.faults
  synced : d.walSynced ≤ e.walSynced

theorem OnlyLogs.refl (d : Disk) : OnlyLogs d d := ⟨rfl, rfl, le_rfl⟩

theorem OnlyLogs.trans {c d e : Disk} (h : OnlyLogs c d) (h' : OnlyLogs d e) : OnlyLogs c e :=
  ⟨h'.data.trans h.data, h'.faults.trans h.faults, h.synced.trans h'.synced⟩

theorem Disk.SameFiles.onlyLogs {d e : Disk} (h : SameFiles d e) : OnlyLogs d e :=
  ⟨h.data, h.faults, h.walSynced.ge⟩

/-! ## Opening -/

section Open

variable {pageFile : PageFile FileId}

theorem onlyReads_sameButData {α : Type} {m : Db Disk α} (h : Exec.Preserves OnlyReads m) :
    Exec.Preserves SameButData m := fun d => (h d).files.sameButData

theorem writePage_sameButData (hfile : pageFile.file = .data) (page : Page) :
    Exec.Preserves SameButData (pageFile.writePage page) := by
  rcases pageFile.writePage_cases page with ⟨stop, hstop⟩ | ⟨pageId, hvalid, hoff⟩
  · intro d
    rw [hstop d]
    exact refl_of SameButData d
  · rw [pageFile.writePage_of_validAs hvalid hoff, hfile]
    exact writeAllAt_sameButData _ _

theorem openCatalog_sameButData (pageFile : PageFile FileId) (hfile : pageFile.file = .data) :
    Exec.Preserves SameButData (CatalogStore.open pageFile) := by
  refine Exec.Preserves.bind ?_ fun catalog => Exec.Preserves.pure _
  refine Exec.Preserves.bind (onlyReads_sameButData (len_onlyReads _)) fun len => ?_
  split
  · refine Exec.Preserves.bind ?_ fun _ => Exec.Preserves.pure _
    exact Exec.Preserves.bind (Exec.Preserves.liftM _) fun page => writePage_sameButData hfile page
  · refine Exec.Preserves.bind (Exec.Preserves.liftM _) fun _ => ?_
    refine Exec.Preserves.bind (onlyReads_sameButData (readPage_onlyReads _ _)) fun page => ?_
    exact Exec.Preserves.bind Exec.Preserves.get fun world => Exec.Preserves.liftM _

end Open

section Log

variable {records : List WalRecord} {w : WalWriter FileId} {d e : Disk}

theorem WalAt.of_sameFiles (h : WalAt records w d) (he : SameFiles d e)
    (hdown : Down d → Down e) : WalAt records w e where
  file := h.file
  bytes := by rw [he.wal, h.bytes]
  log := h.log
  crashOnly := h.crashOnly.congr he.faults
  synced := by rw [he.walSynced, he.wal]; exact h.synced
  next hup := by rw [he.wal]; exact h.next fun hd => hup (hdown hd)

/-- An append adds the record to the log, or changes neither file. -/
theorem append_walAt (h : WalAt records w d) (kind : WalRecordKind) :
    (∃ lsn w' e, WalWriter.append kind (w, d) = (.ok lsn, (w', e)) ∧
      WalAt (records ++ [⟨lsn, kind⟩]) w' e ∧ OnlyLogs d e) ∨
    (∃ stop w' e, WalWriter.append kind (w, d) = (.error stop, (w', e)) ∧
      WalAt records w' e ∧ OnlyLogs d e) := by
  by_cases hroom : w.allocator.next.val.toNat + kind.encodedLen < 2 ^ 64
  case neg => exact Or.inr ⟨_, w, d, append_of_full hroom, h, OnlyLogs.refl d⟩
  cases hfault : d.nextFault with
  | some fault =>
      have hdown := (down_of_fault hfault).record h.crashOnly
        ⟨w.file, .write w.allocator.next.val (WalRecord.bytes ⟨w.allocator.next, kind⟩), false⟩
      refine Or.inr ⟨_, _, _, append_of_fault hroom hfault (h.crashOnly _ _ hfault).1, ?_,
        (sameFiles_record d _).onlyLogs⟩
      exact ⟨h.file, h.bytes, h.log, h.crashOnly, h.synced, fun hup => absurd hdown hup⟩
  | none =>
      have hnext : w.allocator.next.val.toNat = d.wal.bytes.length := h.next (by
        rw [Down, hfault]
        simp)
      have happend := append_of_noFault hroom hfault
      rw [h.file] at happend
      have hlen : (WalRecord.bytes ⟨w.allocator.next, kind⟩).length = kind.encodedLen :=
        WalRecord.length_bytes _
      have hbytes : (d.wal.write w.allocator.next.val.toNat
          (WalRecord.bytes ⟨w.allocator.next, kind⟩)).bytes =
            encodeLog (records ++ [⟨w.allocator.next, kind⟩]) := by
        rw [bytes_write _ (by rw [hlen]; exact hroom), hnext, writeAt_append, h.bytes,
          encodeLog_append]
        simp [encodeLog]
      have hgrow : (encodeLog (records ++ [⟨w.allocator.next, kind⟩])).length =
          d.wal.bytes.length + kind.encodedLen := by
        rw [encodeLog_append, List.length_append, ← h.bytes]
        simp [encodeLog, hlen]
      refine Or.inl ⟨_, _, _, happend, ?_, ⟨by simp, by simp, by simp⟩⟩
      refine ⟨h.file, by simpa [file] using hbytes, ?_, h.crashOnly.congr (by simp), ?_, ?_⟩
      · refine logFrom_append.2 ⟨h.log, ?_, trivial⟩
        rw [hnext, h.bytes, Nat.zero_add]
      · rw [walSynced_record, walSynced_setFile_wal, wal_record, wal_setFile_wal, file, hbytes, hgrow]
        exact h.synced.trans (Nat.le_add_right _ _)
      · intro _
        rw [wal_record, wal_setFile_wal, file, hbytes, hgrow, toNat_next_advanced hroom, hnext]

/-- A sync covers the whole log, or changes neither file. -/
theorem syncWal_walAt (h : WalAt records w d) :
    (∃ e, w.syncData d = (.ok (), e) ∧ WalAt records w e ∧ OnlyLogs d e ∧
      e.walSynced = e.wal.bytes.length) ∨
    (∃ stop e, w.syncData d = (.error stop, e) ∧ WalAt records w e ∧ OnlyLogs d e) := by
  rw [WalWriter.syncData, h.file, vfs_syncData]
  by_cases hup : Down d
  · rcases syncData_wal h.crashOnly with ⟨e, he, -⟩ | ⟨stop, e, he, hsame, hdown⟩
    · obtain ⟨fault, hfault⟩ := Option.isSome_iff_exists.1 hup
      simp only [syncData, hfault] at he
      cases he
    · exact Or.inr ⟨stop, e, he, h.of_sameFiles hsame fun _ => hdown, hsame.onlyLogs⟩
  · rcases syncData_wal h.crashOnly with ⟨e, he, hwal, hdata, hfaults, hsynced⟩ |
      ⟨stop, e, he, hsame, hdown⟩
    · refine Or.inl ⟨e, he, ⟨h.file, by rw [hwal, h.bytes], h.log, h.crashOnly.congr hfaults, ?_,
        fun _ => by rw [hwal]; exact h.next hup⟩, ⟨hdata, hfaults, ?_⟩, by rw [hsynced, hwal]⟩
      · rw [hsynced, hwal]
      · rw [hsynced]
        exact h.synced
    · exact Or.inr ⟨stop, e, he, h.of_sameFiles hsame fun _ => hdown, hsame.onlyLogs⟩

/-- Opening the files does nothing to the log, and the writer stands at its end. -/
theorem open_writer {d₀ d : Disk} {store : TransactionalStore FileId}
    (hopen : openTransactionalStore .data .wal d₀ = (.ok store, d)) :
    store.wal.file = .wal ∧ SameButData d₀ d ∧
      store.wal.allocator.next.val.toNat = d.wal.bytes.length := by
  obtain ⟨catalogStore, u, hcatalog, h⟩ := Exec.bind_eq_ok.1 hopen
  obtain ⟨w, u', hwriter, h⟩ := Exec.bind_eq_ok.1 h
  obtain ⟨len, v, hlen, hwriter⟩ := Exec.bind_eq_ok.1 hwriter
  cases hwriter
  cases h
  have hsame := (openCatalog_sameButData ⟨.data⟩ rfl).rel hcatalog
  have hfiles := (len_onlyReads .wal).rel hlen
  refine ⟨rfl, hsame.trans hfiles.files.sameButData, ?_⟩
  change len.toNat = _
  rw [vfs_len, Disk.len] at hlen
  split at hlen
  · cases hlen
  · cases hlen
    exact toNat_ofNat_length _

theorem open_walAt {d₀ d : Disk} {store : TransactionalStore FileId} {old : List WalRecord}
    (hcrash : CrashOnly d₀) (hbytes : d₀.wal.bytes = encodeLog old) (hlog : LogFrom 0 old)
    (hsynced : d₀.walSynced ≤ d₀.wal.bytes.length)
    (hopen : openTransactionalStore .data .wal d₀ = (.ok store, d)) : WalAt old store.wal d := by
  obtain ⟨hfile, hsame, hnext⟩ := open_writer hopen
  refine ⟨hfile, by rw [hsame.wal, hbytes], hlog, hcrash.congr hsame.faults, ?_, fun _ => hnext⟩
  rw [hsame.walSynced, hsame.wal]
  exact hsynced

/-- The kinds of the records. -/
def kindsOf (records : List WalRecord) : List WalRecordKind := records.map WalRecord.kind

/-- The image records of the pages of a transaction. -/
def imageKinds (txId : TxId) (pages : List Page) : List WalRecordKind :=
  pages.map fun page => .pageImage txId page.id page

theorem ofPage_of_validAs {txId : TxId} {page : Page} {pageId : PageId} (h : page.ValidAs pageId) :
    WalRecordKind.ofPage txId page = .ok (.pageImage txId page.id page) := by
  obtain ⟨header, hvalid, rfl⟩ := h
  have hid : page.id = header.pageId := congrArg PageId.mk hvalid.pageId
  rw [WalRecordKind.ofPage, (Page.validate_eq_ok_iff page).2 ⟨header, hvalid⟩,
    (Page.header_eq_ok_iff page header).2 hvalid.toShape, hid]
  rfl

theorem logImages_cons {txId : TxId} {page : Page} {pageId : PageId} (h : page.ValidAs pageId)
    (pages : List Page) (s : WalWriter FileId × Disk) :
    Transaction.logImages txId (page :: pages) s =
      (do
        let _ ← WalWriter.append (.pageImage txId page.id page)
        Transaction.logImages txId pages : Db (WalWriter FileId × Disk) Unit) s := by
  simp only [Transaction.logImages, List.forM_eq_forM, List.forM_cons,
    ofPage_of_validAs h, Exec.bind_apply, Exec.liftM_apply, Exec.pure_apply]
  rcases WalWriter.append (.pageImage txId page.id page) s with ⟨stop | lsn, t⟩
  · rfl
  · rfl

/-- The images go into the log up to the first append that fails. -/
theorem logImages_walAt {txId : TxId} {pages : List Page}
    (hpages : ∀ page ∈ pages, ∃ pageId, page.ValidAs pageId) :
    ∀ {records : List WalRecord} {w : WalWriter FileId} {d : Disk}, WalAt records w d →
    ∃ r w' e new, Transaction.logImages txId pages (w, d) = (r, (w', e)) ∧
      WalAt (records ++ new) w' e ∧ OnlyLogs d e ∧ kindsOf new <+: imageKinds txId pages ∧
      (r = .ok () → kindsOf new = imageKinds txId pages) := by
  induction pages with
  | nil =>
      intro records w d h
      exact ⟨.ok (), w, d, [], rfl, by rwa [List.append_nil], OnlyLogs.refl d, List.prefix_rfl,
        fun _ => rfl⟩
  | cons page pages ih =>
      intro records w d h
      rw [List.forall_mem_cons] at hpages
      obtain ⟨pageId, hvalid⟩ := hpages.1
      rw [logImages_cons hvalid]
      rcases append_walAt h (.pageImage txId page.id page) with
        ⟨lsn, w', e, happend, hat, honly⟩ | ⟨stop, w', e, happend, hat, honly⟩
      · obtain ⟨r, w'', e', new, hrun, hat', honly', hpre, hall⟩ := ih hpages.2 hat
        refine ⟨r, w'', e', ⟨lsn, .pageImage txId page.id page⟩ :: new,
          (Exec.bind_of_ok happend).trans hrun, ?_, honly.trans honly', ?_, ?_⟩
        · rwa [List.append_assoc] at hat'
        · exact List.cons_prefix_cons.2 ⟨rfl, hpre⟩
        · intro hr
          exact congrArg (List.cons _) (hall hr)
      · refine ⟨.error stop, w', e, [], Exec.bind_of_error happend, by rwa [List.append_nil], honly,
          List.nil_prefix, nofun⟩

/-- The log part of a commit: a prefix of what it sets out to write, and all of it,
covered by a sync, when it succeeds. -/
theorem logCommit_walAt {txId : TxId} {pages : List Page}
    (hpages : ∀ page ∈ pages, ∃ pageId, page.ValidAs pageId) (h : WalAt records w d)
    {r : DbResult Unit} {w' : WalWriter FileId} {e : Disk}
    (hrun : Transaction.logCommit txId pages (w, d) = (r, (w', e))) :
    ∃ new, WalAt (records ++ new) w' e ∧ OnlyLogs d e ∧
      kindsOf new <+: imageKinds txId pages ++ [.commitTx txId] ∧
      (r = .ok () → kindsOf new = imageKinds txId pages ++ [.commitTx txId] ∧
        e.walSynced = e.wal.bytes.length) := by
  obtain ⟨r₁, w₁, e₁, new, himages, hat, honly, hpre, hall⟩ := logImages_walAt hpages h
  have hpre' := hpre.trans (List.prefix_append _ [.commitTx txId])
  cases r₁ with
  | error stop =>
      rw [Transaction.logCommit, Exec.bind_of_error himages] at hrun
      cases hrun
      exact ⟨new, hat, honly, hpre', nofun⟩
  | ok u =>
      have hkinds := hall rfl
      rw [Transaction.logCommit, Exec.bind_of_ok himages] at hrun
      rcases append_walAt hat (.commitTx txId) with
        ⟨lsn, w₂, e₂, happend, hat₂, honly₂⟩ | ⟨stop, w₂, e₂, happend, hat₂, honly₂⟩
      · rw [Exec.bind_of_ok happend] at hrun
        have hall₂ : kindsOf (new ++ [⟨lsn, .commitTx txId⟩]) =
            imageKinds txId pages ++ [.commitTx txId] := by
          rw [kindsOf, List.map_append, ← kindsOf, hkinds]
          rfl
        rw [List.append_assoc] at hat₂
        simp only [Exec.bind_apply, Exec.get_apply, Exec.onRight_apply] at hrun
        rcases syncWal_walAt hat₂ with ⟨e₃, hsync, hat₃, honly₃, hsynced⟩ |
          ⟨stop, e₃, hsync, hat₃, honly₃⟩
        · rw [hsync] at hrun
          cases hrun
          exact ⟨_, hat₃, (honly.trans honly₂).trans honly₃, hall₂ ▸ List.prefix_rfl,
            fun _ => ⟨hall₂, hsynced⟩⟩
        · rw [hsync] at hrun
          cases hrun
          exact ⟨_, hat₃, (honly.trans honly₂).trans honly₃, hall₂ ▸ List.prefix_rfl, nofun⟩
      · rw [Exec.bind_of_error happend] at hrun
        cases hrun
        exact ⟨new, hat₂, honly.trans honly₂, hpre', nofun⟩

theorem logAbort_walAt {txId : TxId} (h : WalAt records w d) {r : DbResult Unit}
    {w' : WalWriter FileId} {e : Disk}
    (hrun : Transaction.logAbort txId (w, d) = (r, (w', e))) :
    ∃ new, WalAt (records ++ new) w' e ∧ OnlyLogs d e ∧ kindsOf new <+: [.abortTx txId] := by
  rcases append_walAt h (.abortTx txId) with
    ⟨lsn, w₁, e₁, happend, hat, honly⟩ | ⟨stop, w₁, e₁, happend, hat, honly⟩
  · rw [Transaction.logAbort, Exec.bind_of_ok happend] at hrun
    simp only [Exec.bind_apply, Exec.get_apply, Exec.onRight_apply] at hrun
    rcases syncWal_walAt hat with ⟨e₂, hsync, hat₂, honly₂, -⟩ | ⟨stop, e₂, hsync, hat₂, honly₂⟩
    · rw [hsync] at hrun
      cases hrun
      exact ⟨_, hat₂, honly.trans honly₂, List.prefix_rfl⟩
    · rw [hsync] at hrun
      cases hrun
      exact ⟨_, hat₂, honly.trans honly₂, List.prefix_rfl⟩
  · rw [Transaction.logAbort, Exec.bind_of_error happend] at hrun
    cases hrun
    exact ⟨[], by rwa [List.append_nil], honly, List.nil_prefix⟩

end Log

/-! ## The transactions of a log -/

/-- What one transaction has put into the log: the pages its commit had staged, if
it came to a commit, and its records behind the begin marker. -/
structure TxLog where
  txId : TxId
  attempt : Option (List Page)
  kinds : List WalRecordKind

namespace TxLog

/-- The records that the end of the transaction set out to write. -/
def intended (t : TxLog) : List WalRecordKind :=
  match t.attempt with
  | some pages => imageKinds t.txId pages ++ [.commitTx t.txId]
  | none => [.abortTx t.txId]

/-- All records of the transaction. -/
def all (t : TxLog) : List WalRecordKind := .beginTx t.txId :: t.kinds

/-- The log has a prefix of what the transaction set out to write, and all its pages
are valid. -/
structure Ok (t : TxLog) : Prop where
  prefix_intended : t.kinds <+: t.intended
  valid : ∀ pages, t.attempt = some pages → ∀ page ∈ pages, ∃ pageId, page.ValidAs pageId

/-- A transaction that has only begun. -/
def begun (txId : TxId) : TxLog := ⟨txId, none, []⟩

theorem begun_ok (txId : TxId) : (begun txId).Ok := ⟨List.nil_prefix, nofun⟩

/-- The pages of a transaction that came to a commit. -/
def pages (t : TxLog) : List Page := t.attempt.getD []

end TxLog

/-- The commits that the transactions came to, in the order of the log. -/
def attempts (logs : List TxLog) : List (TxId × List Page) :=
  logs.filterMap fun t => t.attempt.map fun pages => (t.txId, pages)

/-- The commit marker of the transaction lies in the part of the log that a sync has
covered. -/
def Durable (old new : List WalRecord) (d : Disk) (txId : TxId) : Prop :=
  ∃ front lsn back, new = front ++ ⟨lsn, .commitTx txId⟩ :: back ∧
    (encodeLog (old ++ (front ++ [⟨lsn, .commitTx txId⟩]))).length ≤ d.walSynced

theorem Durable.mono {old new : List WalRecord} {d e : Disk} {txId : TxId}
    (h : Durable old new d txId) (more : List WalRecord) (hle : d.walSynced ≤ e.walSynced) :
    Durable old (new ++ more) e txId := by
  obtain ⟨front, lsn, back, rfl, hlen⟩ := h
  exact ⟨front, lsn, back ++ more, by simp, hlen.trans hle⟩

/-- The log behind the records `old` consists of `new`, the records of the
transactions `logs`, and a page of the data file differs from `base` only if a durable
transaction has written it. -/
structure History (base : ByteFile) (old new : List WalRecord) (logs : List TxLog)
    (store : TransactionalStore FileId) (d : Disk) : Prop where
  wal : WalAt (old ++ new) store.wal d
  kinds : kindsOf new = logs.flatMap TxLog.all
  data : ∀ n, d.data.window n ≠ base.window n →
    ∃ t ∈ logs, (∃ page ∈ t.pages, page.number = n) ∧ Durable old new d t.txId
  ok : ∀ t ∈ logs, t.Ok
  nodup : (logs.map TxLog.txId).Nodup
  below : ∀ t ∈ logs, t.txId.val.toNat < store.nextTxId.toNat

section History

variable {base : ByteFile} {old new : List WalRecord} {logs : List TxLog}
  {store store' : TransactionalStore FileId} {d e : Disk}

/-- The log has not changed. -/
theorem History.of_walAt (h : History base old new logs store d)
    (hwal : WalAt (old ++ new) store'.wal e) (honly : OnlyLogs d e)
    (hnext : store.nextTxId.toNat ≤ store'.nextTxId.toNat) : History base old new logs store' e where
  wal := hwal
  kinds := h.kinds
  data n hn := by
    rw [honly.data] at hn
    obtain ⟨t, ht, hpage, hdurable⟩ := h.data n hn
    refine ⟨t, ht, hpage, ?_⟩
    have hmono := hdurable.mono [] honly.synced
    rwa [List.append_nil] at hmono
  ok := h.ok
  nodup := h.nodup
  below t ht := (h.below t ht).trans_le hnext

/-- The transaction at the end of the log has written more of its records. -/
theorem History.extend {front : List TxLog} {txId : TxId} {attempt : Option (List Page)}
    {added : List WalRecord} (h : History base old new (front ++ [TxLog.begun txId]) store d)
    (hwal : WalAt (old ++ new ++ added) store'.wal e) (honly : OnlyLogs d e)
    (hok : TxLog.Ok ⟨txId, attempt, kindsOf added⟩) (hnext : store'.nextTxId = store.nextTxId) :
    History base old (new ++ added) (front ++ [⟨txId, attempt, kindsOf added⟩]) store' e where
  wal := by rwa [← List.append_assoc]
  kinds := by
    rw [kindsOf, List.map_append, ← kindsOf, h.kinds, List.flatMap_append, List.flatMap_append,
      List.append_assoc]
    simp [TxLog.all, TxLog.begun, kindsOf]
  data n hn := by
    rw [honly.data] at hn
    obtain ⟨t, ht, hpage, hdurable⟩ := h.data n hn
    rcases List.mem_append.1 ht with ht | ht
    · exact ⟨t, List.mem_append_left _ ht, hpage, hdurable.mono added honly.synced⟩
    · obtain ⟨page, hpage, -⟩ := hpage
      rw [List.mem_singleton.1 ht] at hpage
      cases hpage
  ok t ht := by
    rcases List.mem_append.1 ht with ht | ht
    · exact h.ok t (List.mem_append_left _ ht)
    · rw [List.mem_singleton.1 ht]
      exact hok
  nodup := by
    have hnodup := h.nodup
    rw [List.map_append] at hnodup ⊢
    exact hnodup
  below t ht := by
    rw [hnext]
    rcases List.mem_append.1 ht with ht | ht
    · exact h.below t (List.mem_append_left _ ht)
    · rw [List.mem_singleton.1 ht]
      exact h.below (TxLog.begun txId) (by simp)

/-- A new transaction has begun. -/
theorem History.begin {lsn : Lsn} (h : History base old new logs store d)
    (hwal : WalAt (old ++ new ++ [⟨lsn, .beginTx ⟨store.nextTxId⟩⟩]) store'.wal e)
    (honly : OnlyLogs d e) (hnext : store'.nextTxId.toNat = store.nextTxId.toNat + 1) :
    History base old (new ++ [⟨lsn, .beginTx ⟨store.nextTxId⟩⟩])
      (logs ++ [TxLog.begun ⟨store.nextTxId⟩]) store' e where
  wal := by rwa [← List.append_assoc]
  kinds := by
    rw [kindsOf, List.map_append, ← kindsOf, h.kinds, List.flatMap_append]
    rfl
  data n hn := by
    rw [honly.data] at hn
    obtain ⟨t, ht, hpage, hdurable⟩ := h.data n hn
    exact ⟨t, List.mem_append_left _ ht, hpage, hdurable.mono _ honly.synced⟩
  ok t ht := by
    rcases List.mem_append.1 ht with ht | ht
    · exact h.ok t ht
    · rw [List.mem_singleton.1 ht]
      exact TxLog.begun_ok _
  nodup := by
    rw [List.map_append]
    refine List.Nodup.append h.nodup (List.nodup_singleton _) ?_
    rintro txId hmem htxId
    obtain ⟨t, ht, rfl⟩ := List.mem_map.1 hmem
    have hlt := h.below t ht
    rw [List.mem_singleton.1 htxId] at hlt
    exact lt_irrefl _ hlt
  below t ht := by
    rw [hnext]
    rcases List.mem_append.1 ht with ht | ht
    · exact (h.below t ht).trans (Nat.lt_succ_self _)
    · rw [List.mem_singleton.1 ht]
      exact Nat.lt_succ_self _

/-- Pages of a durable transaction have been written to the data file. -/
theorem History.write {t : TxLog} {pages : List Page} (h : History base old new logs store d)
    (ht : t ∈ logs) (hpages : ∀ page ∈ pages, page ∈ t.pages ∧ Fits page.number)
    (hdurable : Durable old new d t.txId) (hdata : e.data = d.data.putPages pages)
    (hsame : SameButData d e) (hwal : WalAt (old ++ new) store.wal e) :
    History base old new logs store e where
  wal := hwal
  kinds := h.kinds
  data n hn := by
    have hmono : ∀ {txId : TxId}, Durable old new d txId → Durable old new e txId := by
      intro txId hd
      have := hd.mono [] hsame.walSynced.ge
      rwa [List.append_nil] at this
    by_cases hmem : ∃ page ∈ pages, page.number = n
    · obtain ⟨page, hpage, hnumber⟩ := hmem
      exact ⟨t, ht, ⟨page, (hpages page hpage).1, hnumber⟩, hmono hdurable⟩
    · have hne : ∀ page ∈ pages, page.number ≠ n := fun page hpage heq => hmem ⟨page, hpage, heq⟩
      rw [hdata, window_putPages_of_not_mem (fun page hpage => (hpages page hpage).2) hne] at hn
      obtain ⟨t', ht', hpage, hd⟩ := h.data n hn
      exact ⟨t', ht', hpage, hmono hd⟩
  ok := h.ok
  nodup := h.nodup
  below := h.below

end History

/-! ## Sessions -/

/-- The data part of a commit writes pages up to the first write that fails. -/
theorem writePages_crashOnly {pageFile : PageFile FileId} (hfile : pageFile.file = .data)
    {pages : List Page} {d e : Disk} {r : DbResult Unit} (hd : CrashOnly d)
    (hpages : ∀ page ∈ pages, ∃ pageId, page.ValidAs pageId)
    (h : Transaction.writePages pageFile pages d = (r, e)) :
    SameButData d e ∧ (Down d → Down e) ∧
      ∃ k, e.data = d.data.putPages (pages.take k) ∧ (∀ page ∈ pages.take k, Fits page.number) ∧
        (r = .ok () → pages.take k = pages) ∧
        ((∀ page ∈ pages, Fits page.number) → r = .ok () ∨ Down e) := by
  have hdown : SameButData d e → Down d → Down e := by
    intro hsame hdown
    obtain ⟨events, htrace, -⟩ := (writePages_grows pageFile pages).rel h
    exact hdown.later hd hsame.faults (by rw [htrace, List.length_append]; omega)
  obtain ⟨r₁, e₁, k, he₁, hdata, hfits, hsame, hall, hend⟩ :=
    forM_writePage_crashOnly hfile hd hpages
  cases r₁ with
  | error stop =>
      rw [Transaction.writePages, Exec.bind_of_error he₁] at h
      cases h
      exact ⟨hsame, hdown hsame, k, hdata, hfits, nofun, hend⟩
  | ok u =>
      rw [Transaction.writePages, Exec.bind_of_ok he₁, PageFile.syncData, hfile, vfs_syncData] at h
      rcases syncData_data (hd.congr hsame.faults) with ⟨e₂, he₂, hsame₂⟩ |
        ⟨stop, e₂, he₂, hsame₂, hdown₂⟩
      · rw [he₂] at h
        cases h
        have hboth := hsame.trans hsame₂.sameButData
        exact ⟨hboth, hdown hboth, k, by rw [hsame₂.data, hdata], hfits, fun _ => hall rfl,
          fun _ => Or.inl rfl⟩
      · rw [he₂] at h
        cases h
        have hboth := hsame.trans hsame₂.sameButData
        exact ⟨hboth, hdown hboth, k, by rw [hsame₂.data, hdata], hfits, nofun,
          fun _ => Or.inr hdown₂⟩

theorem Transaction.mem_stagedPages {tx : Transaction FileId} {page : Page} :
    page ∈ tx.stagedPages ↔ ∃ id : PageId, tx.dirtyPages[id]? = some page := by
  simp only [stagedPages, List.mem_map, Prod.exists, exists_eq_right,
    Std.TreeMap.mem_toList_iff_getElem?_eq_some]

theorem Transaction.StagedValid.validAs {tx : Transaction FileId} (h : tx.StagedValid) :
    ∀ page ∈ tx.stagedPages, ∃ pageId, page.ValidAs pageId := by
  intro page hpage
  obtain ⟨id, hid⟩ := mem_stagedPages.1 hpage
  exact ⟨id, h id page hid⟩

namespace Session

/-- The history of a session; the active transaction stands at its end. -/
def HasHistory (base : ByteFile) (old new : List WalRecord) (logs : List TxLog) :
    Session × Disk → Prop
  | (idle store, d) => History base old new logs store d
  | (active tx, d) => History base old new logs tx.manager d ∧
      ∃ front, logs = front ++ [TxLog.begun tx.txId]

/-- The commit that a call comes to. -/
def commitOf (call : Call) (s : Session) : List (TxId × List Page) :=
  match call, s with
  | .commit, active tx => [(tx.txId, tx.stagedPages)]
  | _, _ => []

/-- The commits that a run comes to, in order: the transaction and the pages it had
staged. -/
def commits : List Call → Session × Disk → List (TxId × List Page)
  | [], _ => []
  | call :: calls, s => commitOf call s.1 ++ commits calls (step call s)

/-- What a call makes of the history. -/
def Continues (base : ByteFile) (old new : List WalRecord) (logs : List TxLog)
    (t : Session × Disk) (tried : List (TxId × List Page)) : Prop :=
  ∃ added logs', HasHistory base old (new ++ added) logs' t ∧
    attempts logs' = attempts logs ++ tried

variable {base : ByteFile} {old new : List WalRecord} {logs : List TxLog}

theorem continues_same {t : Session × Disk} (h : HasHistory base old new logs t) :
    Continues base old new logs t [] :=
  ⟨[], logs, by rwa [List.append_nil], (List.append_nil _).symm⟩

theorem HasHistory.history {s : Session × Disk} (h : HasHistory base old new logs s) :
    History base old new logs s.1.handle s.2 := by
  obtain ⟨s, d⟩ := s
  cases s with
  | idle store => exact h
  | active tx => exact h.1

theorem attempts_append (xs ys : List TxLog) : attempts (xs ++ ys) = attempts xs ++ attempts ys :=
  List.filterMap_append

theorem OnlyReads_walAt {records : List WalRecord} {w : WalWriter FileId} {d e : Disk}
    (h : WalAt records w d) (he : OnlyReads d e) : WalAt records w e := by
  obtain ⟨events, htrace, -⟩ := he.trace
  exact h.of_sameFiles he.files fun hdown =>
    hdown.later h.crashOnly he.files.faults (by rw [htrace, List.length_append]; omega)

/-- Both syncs of an idle store. -/
theorem storeSync_walAt {records : List WalRecord} {store : TransactionalStore FileId} {d : Disk}
    (hfile : store.store.pageFile.file = .data) (h : WalAt records store.wal d) :
    WalAt records store.wal (TransactionalStore.syncData (store, d)).2.2 ∧
      OnlyLogs d (TransactionalStore.syncData (store, d)).2.2 := by
  simp only [TransactionalStore.syncData, Exec.bind_apply, Exec.get_apply, Exec.onRight_apply,
    CatalogStore.syncData, PageFile.syncData, hfile, vfs_syncData]
  have hdown : ∀ {r e}, syncData .data d = (r, e) → SameFiles d e → Down d → Down e := by
    intro r e he hsame hdown
    obtain ⟨events, htrace, -⟩ := (syncData_grows fun _ => trivial : Exec.Preserves
      (TraceGrows fun _ => True) (syncData .data)).rel he
    exact hdown.later h.crashOnly hsame.faults (by rw [htrace, List.length_append]; omega)
  rcases syncData_data h.crashOnly with ⟨e, he, hsame⟩ | ⟨stop, e, he, hsame, hdown'⟩
  · rw [he]
    have hat := h.of_sameFiles hsame (hdown he hsame)
    rcases syncWal_walAt hat with ⟨e', he', hat', honly, -⟩ | ⟨stop, e', he', hat', honly⟩
    · simp only [he']
      exact ⟨hat', hsame.onlyLogs.trans honly⟩
    · simp only [he']
      exact ⟨hat', hsame.onlyLogs.trans honly⟩
  · rw [he]
    exact ⟨h.of_sameFiles hsame fun _ => hdown', hsame.onlyLogs⟩

theorem commitOf_eq_nil {call : Call} {s : Session}
    (h : call = .commit → ∃ store, s = idle store) : commitOf call s = [] := by
  cases s with
  | idle store => cases call <;> rfl
  | active tx =>
      cases call
      case commit =>
        obtain ⟨store, hstore⟩ := h rfl
        cases hstore
      all_goals rfl

/-- The log part of a commit has been run, with or without success. -/
theorem logCommit_history {tx : Transaction FileId} {d e : Disk} {front : List TxLog}
    {r : DbResult Unit} {w : WalWriter FileId} (hstaged : tx.StagedValid)
    (h : History base old new (front ++ [TxLog.begun tx.txId]) tx.manager d)
    (hlog : Transaction.logCommit tx.txId tx.stagedPages (tx.manager.wal, d) = (r, (w, e))) :
    ∃ added, History base old (new ++ added) (front ++ [⟨tx.txId, some tx.stagedPages,
        kindsOf added⟩]) (tx.released w) e ∧
      (r = .ok () → Durable old (new ++ added) e tx.txId) := by
  obtain ⟨added, hwal, honly, hpre, hall⟩ := logCommit_walAt hstaged.validAs h.wal hlog
  refine ⟨added, h.extend hwal honly ⟨hpre, ?_⟩ rfl, ?_⟩
  · rintro pages ⟨⟩
    exact hstaged.validAs
  · intro hr
    obtain ⟨hkinds, hsynced⟩ := hall hr
    obtain ⟨images, marker, rfl, himages, hmarker⟩ := List.map_eq_append_iff.1 hkinds
    obtain ⟨record, rest, rfl, hrecord, hrest⟩ := List.map_eq_cons_iff.1 hmarker
    cases List.map_eq_nil_iff.1 hrest
    obtain ⟨lsn, kind⟩ := record
    cases hrecord
    refine ⟨new ++ images, lsn, [], by simp, ?_⟩
    rw [hsynced, hwal.bytes]
    simp

/-- Both parts of a commit have been run. -/
theorem commit_history {tx : Transaction FileId} {d e e' : Disk} {front : List TxLog}
    {r : DbResult Unit} {w : WalWriter FileId} (hs : (active tx).Good)
    (h : History base old new (front ++ [TxLog.begun tx.txId]) tx.manager d)
    (hlog : Transaction.logCommit tx.txId tx.stagedPages (tx.manager.wal, d) = (.ok (), (w, e)))
    (hdata : Transaction.writePages tx.manager.store.pageFile tx.stagedPages e = (r, e')) :
    ∃ added, History base old (new ++ added) (front ++ [⟨tx.txId, some tx.stagedPages,
      kindsOf added⟩]) (tx.released w) e' := by
  have hstaged := hs.staged tx rfl
  obtain ⟨added, hhist, hdurable⟩ := logCommit_history hstaged h hlog
  obtain ⟨hsame, hdown, k, hput, hfits, -⟩ :=
    writePages_crashOnly hs.data hhist.wal.crashOnly hstaged.validAs hdata
  have hwal : WalAt (old ++ (new ++ added)) (tx.released w).wal e' := by
    refine ⟨hhist.wal.file, ?_, hhist.wal.log, hhist.wal.crashOnly.congr hsame.faults, ?_, ?_⟩
    · rw [hsame.wal, hhist.wal.bytes]
    · rw [hsame.walSynced, hsame.wal]
      exact hhist.wal.synced
    · intro hup
      rw [hsame.wal]
      exact hhist.wal.next fun hd => hup (hdown hd)
  refine ⟨added, hhist.write (t := ⟨tx.txId, some tx.stagedPages, kindsOf added⟩) (by simp) ?_
    (hdurable rfl) hput hsame hwal⟩
  intro page hpage
  exact ⟨List.mem_of_mem_take hpage, hfits page hpage⟩

/-- One call. -/
theorem Does.continues {call : Call} {s t : Session × Disk} (h : Does call s t) (hs : s.1.Good)
    (hh : HasHistory base old new logs s) :
    Continues base old new logs t (commitOf call s.1) := by
  cases h with
  | @looks _ s d e hcall h =>
      rw [commitOf_eq_nil hcall]
      refine continues_same ?_
      have hhist := hh.history.of_walAt (OnlyReads_walAt hh.history.wal h) h.files.onlyLogs le_rfl
      cases s with
      | idle store => exact hhist
      | active tx => exact ⟨hhist, hh.2⟩
  | @syncs store d =>
      obtain ⟨hwal, honly⟩ := storeSync_walAt hs.data hh.wal
      exact continues_same (t := (idle store, _)) (hh.of_walAt hwal honly le_rfl)
  | @starts store d e lsn w hroom h =>
      have hnext : (store.nextTxId + 1).toNat = store.nextTxId.toNat + 1 := by
        rw [UInt64.toNat_add]
        exact Nat.mod_eq_of_lt hroom
      rcases append_walAt hh.wal (.beginTx ⟨store.nextTxId⟩) with
        ⟨lsn', w', e', happend, hat, honly⟩ | ⟨stop, w', e', happend, -⟩
      · rw [h] at happend
        cases happend
        refine ⟨_, _, ⟨hh.begin hat honly hnext, logs, rfl⟩, ?_⟩
        rw [attempts_append]
        rfl
      · rw [h] at happend
        cases happend
  | @startFails store d e stop w hroom h =>
      have hnext : (store.nextTxId + 1).toNat = store.nextTxId.toNat + 1 := by
        rw [UInt64.toNat_add]
        exact Nat.mod_eq_of_lt hroom
      rcases append_walAt hh.wal (.beginTx ⟨store.nextTxId⟩) with
        ⟨lsn', w', e', happend, -⟩ | ⟨stop', w', e', happend, hat, honly⟩
      · rw [h] at happend
        cases happend
      · rw [h] at happend
        cases happend
        exact continues_same (t := (idle (store.advanced w false), e))
          (hh.of_walAt hat honly (Nat.le_succ _ |>.trans hnext.ge))
  | @stages _ tx tx' d e hcall h =>
      rw [commitOf_eq_nil fun hc => absurd hc hcall]
      obtain ⟨hhist, front, hlogs⟩ := hh
      refine continues_same (t := (active tx', e)) ⟨?_, front, ?_⟩
      · have hmanager : tx'.manager = tx.manager := h.manager
        rw [hmanager]
        exact hhist.of_walAt (OnlyReads_walAt hhist.wal h.disk) h.disk.files.onlyLogs le_rfl
      · have htxId : tx'.txId = tx.txId := h.txId
        rw [htxId]
        exact hlogs
  | @logFails tx d e stop w h =>
      obtain ⟨hhist, front, rfl⟩ := hh
      obtain ⟨added, hhist', -⟩ := logCommit_history (hs.staged tx rfl) hhist h
      refine ⟨added, _, hhist', ?_⟩
      rw [attempts_append, attempts_append]
      simp [attempts, TxLog.begun, commitOf]
  | @dataFails tx d e e' stop w h h' =>
      obtain ⟨hhist, front, rfl⟩ := hh
      obtain ⟨added, hhist'⟩ := commit_history hs hhist h h'
      refine ⟨added, _, hhist', ?_⟩
      rw [attempts_append, attempts_append]
      simp [attempts, TxLog.begun, commitOf]
  | @commits tx d e e' w h h' =>
      obtain ⟨hhist, front, rfl⟩ := hh
      obtain ⟨added, hhist'⟩ := commit_history hs hhist h h'
      have hpublished : History base old (new ++ added) (front ++ [⟨tx.txId, some tx.stagedPages,
          kindsOf added⟩]) (tx.published w) e' := hhist'.of_walAt hhist'.wal (OnlyLogs.refl e') le_rfl
      refine ⟨added, _, hpublished, ?_⟩
      rw [attempts_append, attempts_append]
      simp [attempts, TxLog.begun, commitOf]
  | @rollsBack tx d e r w h =>
      obtain ⟨hhist, front, rfl⟩ := hh
      obtain ⟨added, hwal, honly, hpre⟩ := logAbort_walAt hhist.wal h
      have hok : TxLog.Ok ⟨tx.txId, none, kindsOf added⟩ := ⟨hpre, nofun⟩
      have hhist' : History base old (new ++ added) (front ++ [⟨tx.txId, none, kindsOf added⟩])
          (tx.released w) e := hhist.extend hwal honly hok rfl
      refine ⟨added, _, hhist', ?_⟩
      rw [attempts_append, attempts_append]
      simp [attempts, TxLog.begun, commitOf]
  | @drops tx d =>
      obtain ⟨hhist, front, rfl⟩ := hh
      exact continues_same (t := (idle (tx.released tx.manager.wal), d))
        (hhist.of_walAt hhist.wal (OnlyLogs.refl d) le_rfl)

/-- A whole run. -/
theorem run_continues {s : Session × Disk} (hs : s.1.Good)
    (hh : HasHistory base old new logs s) (calls : List Call) :
    (run calls s).1.Good ∧ Continues base old new logs (run calls s) (commits calls s) := by
  induction calls generalizing s new logs with
  | nil => exact ⟨hs, continues_same hh⟩
  | cons call calls ih =>
      obtain ⟨added, logs', hh', htried⟩ := (step_does hs call s.2).continues hs hh
      obtain ⟨hgood, added', logs'', hh'', htried'⟩ := ih (step_good hs call) hh'
      refine ⟨hgood, added ++ added', logs'', by rwa [← List.append_assoc], ?_⟩
      rw [htried', htried, commits, List.append_assoc]

end Session

end Rdbms
