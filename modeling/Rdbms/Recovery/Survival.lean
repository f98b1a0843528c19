import Rdbms.Recovery.Clean
import Rdbms.Tx.Stops

/-!
# What survives a machine that stops

A session runs on a disk on which the machine may stop, and the same session is compared
with one on the disk without faults. The pages that a recovery pass puts back from a part
of the log are those of the session before the call in which the machine has stopped, or
those after it. After recovery, the data file has the pages of one of the two sessions.
-/

namespace Rdbms

open Library Disk ByteFile

/-! ## From the disk without faults to the one on which the machine stops -/

section Transfer

variable {base : ByteFile} {old new xs ys records : List WalRecord} {logs : List TxLog}
  {store : TransactionalStore FileId} {w w' : WalWriter FileId} {d e : Disk}

theorem WalAt.of_healed (h : WalAt records w d.healed) (hd : CrashOnly d) : WalAt records w d where
  file := h.file
  bytes := h.bytes
  log := h.log
  crashOnly := hd
  synced := h.synced
  next := fun _ => h.next d.healed_faultFree.not_down

theorem History.of_healed (h : History base old new logs store d.healed) (hd : CrashOnly d) :
    History base old new logs store d where
  wal := h.wal.of_healed hd
  kinds := h.kinds
  data := h.data
  ok := h.ok
  nodup := h.nodup
  below := h.below

/-- The bytes of a log determine its records. -/
theorem walAt_unique (hx : WalAt xs w d) (hy : WalAt ys w' e) (hsame : e.wal = d.wal) : ys = xs := by
  obtain ⟨u, -, hread⟩ := readAll_encodeLog .wal d.healed_faultFree hx.bytes hx.log
  have hbytes : d.healed.wal.bytes = encodeLog ys := by
    rw [← hy.bytes, hsame]
    rfl
  obtain ⟨u', -, hread'⟩ := readAll_encodeLog .wal d.healed_faultFree hbytes hy.log
  rw [hread] at hread'
  cases hread'
  rfl

end Transfer

/-! ## The files only advance -/

/-- The data file has not become shorter, and what was synced of the log still is. -/
structure Advances (d e : Disk) : Prop where
  data : d.data.bytes.length ≤ e.data.bytes.length
  synced : d.walSynced ≤ e.walSynced

theorem Advances.refl (d : Disk) : Advances d d := ⟨le_rfl, le_rfl⟩

theorem Advances.trans {c d e : Disk} (h : Advances c d) (h' : Advances d e) : Advances c e :=
  ⟨h.data.trans h'.data, h.synced.trans h'.synced⟩

theorem OnlyLogs.advances {d e : Disk} (h : OnlyLogs d e) : Advances d e :=
  ⟨by rw [h.data], h.synced⟩

theorem length_le_putPages {f : ByteFile} {pages : List Page}
    (hfits : ∀ page ∈ pages, Fits page.number) :
    f.bytes.length ≤ (f.putPages pages).bytes.length := by
  induction pages generalizing f with
  | nil => exact le_rfl
  | cons page pages ih =>
      rw [List.forall_mem_cons] at hfits
      exact (torn_putPage hfits.1).length_le.trans (ih hfits.2)

namespace Session

variable {base : ByteFile} {old new records : List WalRecord} {logs : List TxLog}
  {s t : Session × Disk} {call : Call}

/-- A commit whose log part has returned. -/
theorem commit_advances {tx : Transaction FileId} {d e e' : Disk} {r r' : DbResult Unit}
    {w : WalWriter FileId} (hs : (active tx).Good) (h : WalAt records tx.manager.wal d)
    (hlog : Transaction.logCommit tx.txId tx.stagedPages (tx.manager.wal, d) = (r, (w, e)))
    (hwrite : Transaction.writePages tx.manager.store.pageFile tx.stagedPages e = (r', e')) :
    Advances d e' := by
  have hstaged := (hs.staged tx rfl).validAs
  obtain ⟨added, hwal, honly, -⟩ := logCommit_walAt hstaged h hlog
  obtain ⟨hsame, -, k, hdata, hfits, -⟩ := writePages_crashOnly hs.data hwal.crashOnly hstaged hwrite
  refine honly.advances.trans ⟨?_, hsame.walSynced.ge⟩
  rw [hdata]
  exact length_le_putPages hfits

theorem Does.advances (h : Does call s t) (hs : s.1.Good) (hwal : WalAt records s.1.handle.wal s.2) :
    Advances s.2 t.2 := by
  cases h with
  | looks hcall h => exact h.files.onlyLogs.advances
  | syncs => exact (storeSync_walAt hs.data hwal).2.advances
  | @starts store d e lsn w hroom h =>
      have hwal : WalAt records store.wal d := hwal
      rcases append_walAt hwal (.beginTx ⟨store.nextTxId⟩) with
        ⟨lsn', w', e', happend, -, honly⟩ | ⟨stop, w', e', happend, -, honly⟩
      · rw [h] at happend
        cases happend
        exact honly.advances
      · rw [h] at happend
        cases happend
  | @startFails store d e stop w hroom h =>
      have hwal : WalAt records store.wal d := hwal
      rcases append_walAt hwal (.beginTx ⟨store.nextTxId⟩) with
        ⟨lsn, w', e', happend, -, honly⟩ | ⟨stop', w', e', happend, -, honly⟩
      · rw [h] at happend
        cases happend
      · rw [h] at happend
        cases happend
        exact honly.advances
  | stages hcall h => exact h.disk.files.onlyLogs.advances
  | @logFails tx d e stop w h =>
      obtain ⟨added, -, honly, -⟩ := logCommit_walAt (hs.staged tx rfl).validAs hwal h
      exact honly.advances
  | dataFails h h' => exact commit_advances hs hwal h h'
  | commits h h' => exact commit_advances hs hwal h h'
  | rollsBack h =>
      obtain ⟨added, -, honly, -⟩ := logAbort_walAt hwal h
      exact honly.advances
  | @drops tx d => exact Advances.refl d

/-- A whole run. -/
theorem run_advances (hs : s.1.Good) (hh : HasHistory base old new logs s) (calls : List Call) :
    Advances s.2 (run calls s).2 := by
  induction calls generalizing s new logs with
  | nil => exact Advances.refl s.2
  | cons call calls ih =>
      have hdoes := step_does hs call s.2
      obtain ⟨added, logs', hh', -⟩ := hdoes.continues hs hh
      exact (hdoes.advances hs hh.history.wal).trans (ih (step_good hs call) hh')

end Session

/-! ## The surviving part of the log -/

section Cut

variable {base : ByteFile} {records added : List WalRecord} {logs logs' : List TxLog}
  {store store' : TransactionalStore FileId} {d e : Disk} {tried : List (TxId × List Page)} {k : Nat}

theorem length_encodeLog_take_le (records : List WalRecord) (k : Nat) :
    (encodeLog (records.take k)).length ≤ (encodeLog records).length := by
  have hsplit := encodeLog_append (records.take k) (records.drop k)
  rw [List.take_append_drop] at hsplit
  rw [hsplit, List.length_append]
  exact Nat.le_add_right _ _

/-- A part of the log that is as long as the whole log is the whole log. -/
theorem take_eq_of_length_le (h : (encodeLog records).length ≤ (encodeLog (records.take k)).length) :
    records.take k = records := by
  have hsplit := encodeLog_append (records.take k) (records.drop k)
  rw [List.take_append_drop] at hsplit
  have hlen := congrArg List.length hsplit
  rw [List.length_append] at hlen
  cases hrest : records.drop k with
  | nil => rw [← List.append_nil (records.take k), ← hrest, List.take_append_drop]
  | cons record rest =>
      have hpos := List.length_pos_of_ne_nil (bytes_ne_nil record)
      have hfirst : (encodeLog (record :: rest)).length =
          record.bytes.length + (encodeLog rest).length := by
        rw [encodeLog, List.flatMap_cons, List.length_append]
        rfl
      rw [hrest] at hlen
      omega

/-- The commits of the session so far are those whose markers have survived. -/
theorem mem_committedIds_take {txId : TxId}
    (hdurable : ∀ txId, .commitTx txId ∈ kindsOf records → Durable [] records d txId)
    (hadded : .commitTx txId ∉ kindsOf added)
    (hcover : d.walSynced ≤ (encodeLog ((records ++ added).take k)).length) :
    txId ∈ committedIds ((records ++ added).take k) ↔ txId ∈ committedIds records := by
  rw [mem_committedIds, mem_committedIds]
  constructor
  · intro hmem
    have hall : .commitTx txId ∈ kindsOf (records ++ added) :=
      (List.take_subset k (records ++ added) |> List.map_subset WalRecord.kind) hmem
    rw [kindsOf_append, List.mem_append] at hall
    exact hall.resolve_right hadded
  · intro hmem
    obtain ⟨front, lsn, back, rfl, hlen⟩ := hdurable txId hmem
    refine List.mem_map.2 ⟨⟨lsn, .commitTx txId⟩, ?_, rfl⟩
    rw [List.append_assoc, List.cons_append] at hcover ⊢
    exact mem_take_of_length_le (hlen.trans hcover)

/-- A marker in the log is that of a commit that the session has come to. -/
theorem mem_attempts_of_marker {txId : TxId} (h : History base [] records logs store d)
    (hmarker : .commitTx txId ∈ kindsOf records) : ∃ pages, (txId, pages) ∈ attempts logs := by
  rw [h.kinds] at hmarker
  obtain ⟨t, ht, hkind⟩ := List.mem_flatMap.1 hmarker
  have hid : txId = t.txId := Option.some.inj ((h.ok t ht).owner hkind)
  subst hid
  obtain ⟨pages, hattempt, -⟩ := (h.ok t ht).eq_of_commit List.prefix_rfl hkind
  exact ⟨pages, mem_attempts.2 ⟨t, ht, rfl, hattempt⟩⟩

theorem attempts_pairwise (h : (logs.map TxLog.txId).Nodup) :
    (attempts logs).Pairwise fun c c' => c.1 ≠ c'.1 := by
  rw [attempts, List.pairwise_filterMap]
  refine (List.pairwise_map.1 h).imp fun {t t'} hne c hc c' hc' => ?_
  obtain ⟨pages, -, rfl⟩ := Option.map_eq_some_iff.1 hc
  obtain ⟨pages', -, rfl⟩ := Option.map_eq_some_iff.1 hc'
  exact hne

/-- The log has no marker of a transaction that has come to its commit later. -/
theorem not_committed_of_tried {c : TxId × List Page} (h : History base [] records logs store d)
    (h' : History base [] (records ++ added) logs' store' e)
    (htried : attempts logs' = attempts logs ++ tried) (hc : c ∈ tried) :
    .commitTx c.1 ∉ kindsOf records := by
  intro hmarker
  obtain ⟨pages, hmem⟩ := mem_attempts_of_marker h hmarker
  have hpairwise := attempts_pairwise h'.nodup
  rw [htried, List.pairwise_append] at hpairwise
  exact hpairwise.2.2 _ hmem _ hc rfl

/-- A pass over a part of the log that has all durable markers puts back what a pass over
the old log puts back, or what one over the whole log does: the new records belong to one
commit at most. -/
theorem redone_cut (h : History base [] records logs store d)
    (h' : History base [] (records ++ added) logs' store' e)
    (htried : attempts logs' = attempts logs ++ tried) (hone : tried.length ≤ 1)
    (hdurable : ∀ txId, .commitTx txId ∈ kindsOf records → Durable [] records d txId)
    (hadded : ∀ c ∈ attempts logs, .commitTx c.1 ∉ kindsOf added)
    (hcover : d.walSynced ≤ (encodeLog ((records ++ added).take k)).length) :
    redone ((records ++ added).take k) = redone records ∨
      redone ((records ++ added).take k) = redone (records ++ added) ∧
        ∃ txId, .commitTx txId ∈ kindsOf added := by
  have hpart : ∀ j, d.walSynced ≤ (encodeLog ((records ++ added).take j)).length →
      redone ((records ++ added).take j) = redone records ++
        committedPages (committedIds ((records ++ added).take j)) tried := by
    intro j hj
    rw [redone_take h', htried, committedPages_append, redone_eq h]
    congr 1
    exact committedPages_congr fun c hc => mem_committedIds_take hdurable (hadded c hc) hj
  have hwhole := hpart (records ++ added).length (by
    rw [List.take_length]
    exact hcover.trans (length_encodeLog_take_le _ k))
  rw [List.take_length] at hwhole
  rw [hpart k hcover, hwhole]
  rcases tried with _ | ⟨c, _ | ⟨c', rest⟩⟩
  · exact Or.inl (List.append_nil _)
  · by_cases hmem : c.1 ∈ committedIds ((records ++ added).take k)
    · have hall : .commitTx c.1 ∈ kindsOf (records ++ added) :=
        (List.take_subset k (records ++ added) |> List.map_subset WalRecord.kind)
          (mem_committedIds.1 hmem)
      have hnew : .commitTx c.1 ∈ kindsOf added := by
        rw [kindsOf_append, List.mem_append] at hall
        exact hall.resolve_left (not_committed_of_tried h h' htried List.mem_cons_self)
      refine Or.inr ⟨?_, c.1, hnew⟩
      simp [committedPages, hmem, mem_committedIds.2 hall]
    · left
      simp [committedPages, hmem]
  · exact absurd hone (by simp)

/-- A pass over a part of the log that has all durable markers puts back all that the
session has committed. -/
theorem redone_take_of_durable (h : History base [] records logs store d)
    (hdurable : ∀ txId, .commitTx txId ∈ kindsOf records → Durable [] records d txId)
    (hcover : d.walSynced ≤ (encodeLog (records.take k)).length) :
    redone (records.take k) = redone records := by
  have h' : History base [] (records ++ []) logs store d := by rwa [List.append_nil]
  have hcut := redone_cut h h' (List.append_nil _).symm (Nat.zero_le 1) hdurable
    (fun c _ hmem => by cases hmem) (by rwa [List.append_nil])
  rw [List.append_nil] at hcut
  exact hcut.elim id And.left

end Cut

/-! ## What a machine that stops leaves behind -/

/-- A part of the log that has everything that was synced, and a data file in which only
pages that a pass over this part puts back are damaged. -/
structure Leaves (d : Disk) (cut : List WalRecord) (r : Disk) : Prop where
  faultFree : FaultFree r
  log : r.wal.bytes = encodeLog cut
  covers : d.walSynced ≤ r.wal.bytes.length
  synced : r.walSynced ≤ r.wal.bytes.length
  pages : ∀ pageId, (∀ page ∈ redone cut, page.id ≠ pageId) →
    r.storedPage pageId = d.storedPage pageId

section Leaves

variable {base f : ByteFile} {pages : PageId → Option Page} {records cut : List WalRecord}
  {logs logs' : List TxLog} {s : Session × Disk} {d e r : Disk} {pageId : PageId} {page : Page}
  {k : Nat}

theorem Leaves.congr (h : Leaves e cut r) (hsame : SameFiles d e) : Leaves d cut r where
  faultFree := h.faultFree
  log := h.log
  covers := hsame.walSynced ▸ h.covers
  synced := h.synced
  pages := fun pageId hpage => (h.pages pageId hpage).trans (storedPage_congr hsame.data)

/-- Everything may be left behind. -/
theorem leaves_all {w : WalWriter FileId} (h : WalAt records w d) : Leaves d records d.healed where
  faultFree := d.healed_faultFree
  log := h.bytes
  covers := h.synced
  synced := h.synced
  pages := fun _ _ => storedPage_congr rfl

/-- A valid page does not consist of zeros. -/
theorem not_zeros_of_validAs (h : page.ValidAs pageId) : page.bytes ≠ List.replicate pageSize 0 := by
  intro hzeros
  obtain ⟨header, hvalid, -⟩ := h
  have hpage : page = Page.zeroed := Page.ext_bytes hzeros
  have hheader := (Page.header_eq_ok_iff page header).2 hvalid.toShape
  rw [hpage, header_zeroed] at hheader
  cases hheader

/-- A valid page that a file with whole pages reads as lies in the file. -/
theorem Represents.holds_of_window (h : Represents base pages) (hpage : page.ValidAs pageId)
    (hwindow : base.window pageId.val.toNat = page.bytes) : base.Holds pageId.val.toNat page := by
  cases hstored : pages pageId with
  | none =>
      rw [h.zeros hstored] at hwindow
      exact absurd hwindow.symm (not_zeros_of_validAs hpage)
  | some page' =>
      have hholds := h.holds hstored
      rw [hholds.window] at hwindow
      rwa [← Page.ext_bytes hwindow]

/-- The page reads the same in a file that is not shorter. -/
theorem holds_of_window {g : ByteFile} {n : Nat} (h : f.Holds n page)
    (hlong : f.bytes.length ≤ g.bytes.length) (hwindow : g.window n = f.window n) :
    g.Holds n page := by
  have hlen := h.length_le
  rw [Nat.add_mul, Nat.one_mul] at hlen
  rw [Holds, slice_eq_window (hlen.trans hlong), hwindow, h.window]

/-- A page that recovery does not write is in the damaged file as the session has it. -/
theorem Mirrors.stored_of_leaves {all : List WalRecord} {store : TransactionalStore FileId}
    (h : Mirrors base records logs s) (hbase : Represents base pages) (hsmall : SmallRecords records)
    (hcrash : History base [] all logs' store d) (hlong : base.bytes.length ≤ d.data.bytes.length)
    (hredone : redone (all.take k) = redone records) (hr : Leaves d (all.take k) r)
    (hnone : lastPage pageId.val.toNat (redone records) = none)
    (hpage : s.2.storedPage pageId = some page) : r.storedPage pageId = some page := by
  have hne := lastPage_eq_none.1 hnone
  have hids : ∀ p ∈ redone (all.take k), p.id ≠ pageId := by
    intro p hp hid
    rw [hredone] at hp
    exact hne p hp (congrArg (fun id : PageId => id.val.toNat) hid)
  obtain ⟨hholds, hvalid⟩ := storedPage_eq_some.1 hpage
  -- the session has found the page in the file, and so does the machine that has stopped
  have hfits := h.fits hsmall records.length
  rw [List.take_length] at hfits
  have hfound : base.window pageId.val.toNat = page.bytes := by
    rw [← hholds.window, h.data hsmall, window_putPages_of_not_mem hfits hne]
  have hcover := hr.covers
  rw [hr.log] at hcover
  have hkept : d.data.window pageId.val.toNat = base.window pageId.val.toNat := by
    refine window_of_not_surviving hcrash hcover ?_
    rw [survivingPages, ← redone_take hcrash, hredone]
    exact hne
  rw [hr.pages pageId hids, storedPage_eq_some]
  exact ⟨holds_of_window (hbase.holds_of_window hvalid hfound) hlong hkept, hvalid⟩

/-- Recovery from what is left behind gives every page of the session. -/
theorem Mirrors.recover_leaves {all : List WalRecord} {store : TransactionalStore FileId}
    (h : Mirrors base records logs s) (hbase : Represents base pages) (hsmall : SmallRecords records)
    (hcrash : History base [] all logs' store d) (hlong : base.bytes.length ≤ d.data.bytes.length)
    (hredone : redone (all.take k) = redone records) (hr : Leaves d (all.take k) r) :
    ∃ report e, recoverPageFile ⟨FileId.data⟩ .wal r = (.ok ⟨⟨.data⟩, report⟩, e) ∧ FaultFree e ∧
      e.wal.bytes = encodeLog (all.take k) ∧ e.walSynced ≤ e.wal.bytes.length ∧
      ∀ pageId page, s.2.storedPage pageId = some page → e.storedPage pageId = some page := by
  have hfits := h.fits hsmall records.length
  rw [List.take_length, ← hredone] at hfits
  have hredo : ∀ image ∈ replayed (all.take k), Redoable image := by
    intro image himage
    have hput : image.2 ∈ redone (all.take k) := List.mem_map_of_mem himage
    rw [replayed_take hcrash] at himage
    obtain ⟨page, hpage, rfl⟩ := List.mem_map.1 himage
    exact ⟨validAs_of_surviving hcrash hpage, hfits page hput⟩
  obtain ⟨u, hu, hread⟩ := readAll_encodeLog .wal hr.faultFree hr.log (hcrash.wal.log.take k)
  have hrun := recoverPageFile_of_read (hu.faultFree hr.faultFree) hread hredo
  have hsame := sameButData_withPages u (redone (all.take k))
  have hdata := data_withPages u (redone (all.take k))
  rw [hu.data] at hdata
  rw [← redone] at hrun
  generalize u.withPages (redone (all.take k)) = e at hrun hsame hdata
  refine ⟨_, _, hrun, fun n => ?_, ?_, ?_, fun pageId page hpage => ?_⟩
  · rw [faults_record, hsame.faults]
    exact hu.faultFree hr.faultFree n
  · rw [wal_record, hsame.wal, hu.wal, hr.log]
  · rw [walSynced_record, wal_record, hsame.walSynced, hsame.wal, hu.walSynced, hu.wal]
    exact hr.synced
  · rw [storedPage_congr (data_record e ⟨.data, .sync, true⟩), storedPage_eq_some, hdata]
    obtain ⟨hholds, hvalid⟩ := storedPage_eq_some.1 hpage
    refine ⟨?_, hvalid⟩
    rw [hredone] at hfits ⊢
    cases hlast : lastPage pageId.val.toNat (redone records) with
    | some page' =>
        rw [h.data hsmall] at hholds
        rw [hholds.unique (holds_putPages hfits hlast)]
        exact holds_putPages hfits hlast
    | none =>
        have hstored := h.stored_of_leaves hbase hsmall hcrash hlong hredone hr hlast hpage
        exact (storedPage_eq_some.1 hstored).1.putPages_of_not_mem hfits (lastPage_eq_none.1 hlast)

end Leaves

end Rdbms
