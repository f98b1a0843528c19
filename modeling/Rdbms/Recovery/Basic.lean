import Rdbms.Wal.Log
import Rdbms.Vfs.Crash

/-!
# Recovery

A recovery pass scans the log and writes the page images of committed
transactions to the data file. On a disk without faults it puts exactly the pages
listed by `replayed` into the data file, in the order of the log.
-/

namespace Rdbms

open Library Disk ByteFile

/-- Summary of one recovery pass. -/
structure RecoveryReport where
  scannedWalRecords : Nat
  redonePageImages : Nat
  deriving DecidableEq, Repr

/-- Database handle returned after a recovery pass. -/
structure RecoveredDatabase (F : Type) where
  pageFile : PageFile F
  report : RecoveryReport

/-- The sink that writes page images into a page file and counts them. -/
structure PageFileRedo (F : Type) where
  pageFile : PageFile F
  redonePageImages : Nat

namespace PageFileRedo

variable {W F : Type} [VfsFile W F]

instance : PageImageRedo (PageFileRedo F × W) where
  redoPageImage _ _ pageId image := do
    let page ← image.fromBytes
    let (redo, _) ← Exec.get
    Exec.onRight (redo.pageFile.writePageAt pageId page)
    Exec.modify fun s => ({ s.1 with redonePageImages := s.1.redonePageImages + 1 }, s.2)

end PageFileRedo

/-- Run recovery over an already opened page file and log file. -/
def recoverPageFile {W F : Type} [VfsFile W F] (pageFile : PageFile F) (walFile : F) :
    Db W (RecoveredDatabase F) := do
  let records ← WalReader.readAll walFile
  let (_, redo) ← Exec.withLocal (PageFileRedo.mk pageFile 0) (redoCommittedPageImages records)
  redo.pageFile.syncData
  return ⟨redo.pageFile, ⟨records.length, redo.redonePageImages⟩⟩

/-! ## Which pages are put back -/

/-- The image of a record whose transaction is committed and not aborted. -/
def replayedImage (committed aborted : List TxId) (record : WalRecord) : Option (PageId × Page) :=
  match record.kind with
  | .pageImage txId pageId image =>
      if txId ∈ committed ∧ txId ∉ aborted then some (pageId, image) else none
  | _ => none

/-- The images that a pass over the records puts back, in the order of the log. -/
def replayed (records : List WalRecord) : List (PageId × Page) :=
  records.filterMap (replayedImage (committedIds records) (abortedIds records))

variable {d : Disk}

/-- A page image that recovery accepts. -/
def Redoable (image : PageId × Page) : Prop := image.2.ValidAs image.1 ∧ Fits image.2.number

/-- A redo of one image is a page write. -/
theorem redoPageImage_eq {redo : PageFileRedo FileId} {lsn : Lsn} {txId : TxId}
    {image : PageId × Page} (hfile : redo.pageFile.file = .data) (hd : FaultFree d)
    (h : Redoable image) :
    PageImageRedo.redoPageImage lsn txId image.1 image.2 (redo, d) =
      (.ok (), ({ redo with redonePageImages := redo.redonePageImages + 1 },
        d.withPage image.2)) := by
  simp only [PageImageRedo.redoPageImage, fromBytes_of_validAs h.1, Exec.bind_apply,
    Exec.liftM_apply, Exec.get_apply, Exec.onRight_apply, Exec.modify_apply,
    writePageAt_of_validAs _ h.1, writePage_of_faultFree hfile hd h.1 h.2]

/-- The disk after the pages have been written one after the other. -/
def Disk.withPages (d : Disk) (pages : List Page) : Disk := pages.foldl Disk.withPage d

theorem withPages_append (d : Disk) (xs ys : List Page) :
    d.withPages (xs ++ ys) = (d.withPages xs).withPages ys := List.foldl_append

theorem data_withPages (d : Disk) (pages : List Page) :
    (d.withPages pages).data = d.data.putPages pages := by
  induction pages generalizing d with
  | nil => rfl
  | cons page pages ih => exact ih (d.withPage page)

theorem trace_withPages (d : Disk) (pages : List Page) :
    (d.withPages pages).trace = d.trace ++ pages.map Page.writeEvent := by
  induction pages generalizing d with
  | nil => exact (List.append_nil _).symm
  | cons page pages ih =>
      rw [withPages, List.foldl_cons, ← withPages, ih, trace_withPage, List.append_assoc]
      rfl

theorem sameButData_withPages (d : Disk) (pages : List Page) :
    SameButData d (d.withPages pages) := by
  induction pages generalizing d with
  | nil => exact ⟨rfl, rfl, rfl⟩
  | cons page pages ih =>
      have hfirst : SameButData d (d.withPage page) := ⟨rfl, rfl, rfl⟩
      exact hfirst.trans (ih (d.withPage page))

/-- One record of the pass. -/
theorem redoRecord_eq {redo : PageFileRedo FileId} {committed aborted : List TxId}
    {record : WalRecord} (hfile : redo.pageFile.file = .data) (hd : FaultFree d)
    (h : ∀ image, replayedImage committed aborted record = some image → Redoable image) :
    redoRecord committed aborted record (redo, d) =
      (.ok (), ({ redo with redonePageImages := redo.redonePageImages +
          (replayedImage committed aborted record).toList.length },
        d.withPages ((replayedImage committed aborted record).toList.map Prod.snd))) := by
  obtain ⟨lsn, kind⟩ := record
  cases kind with
  | beginTx txId => rfl
  | commitTx txId => rfl
  | abortTx txId => rfl
  | checkpoint => rfl
  | pageImage txId pageId image =>
      by_cases hmem : txId ∈ committed ∧ txId ∉ aborted
      · have himage : replayedImage committed aborted ⟨lsn, .pageImage txId pageId image⟩ =
            some (pageId, image) := by
          simp only [replayedImage, if_pos hmem]
        have hredo := h _ himage
        obtain ⟨header, hvalid, hid⟩ := hredo.1
        have hheader := (Page.header_eq_ok_iff image header).2 hvalid.toShape
        rw [himage]
        simp only [redoRecord, if_pos hmem, fromBytes_of_validAs hredo.1, hheader,
          Exec.bind_apply, Exec.liftM_apply, failIf_of_not (not_not.2 hid)]
        exact redoPageImage_eq hfile hd hredo
      · have himage : replayedImage committed aborted ⟨lsn, .pageImage txId pageId image⟩ = none := by
          simp only [replayedImage, if_neg hmem]
        rw [himage]
        simp only [redoRecord, if_neg hmem]
        rfl

theorem filterMap_cons_toList {α β : Type} (f : α → Option β) (x : α) (xs : List α) :
    (x :: xs).filterMap f = (f x).toList ++ xs.filterMap f := by
  cases hx : f x with
  | none => rw [List.filterMap_cons_none hx]; rfl
  | some y => rw [List.filterMap_cons_some hx]; rfl

/-- The whole pass, given the two sets. -/
theorem forM_redoRecord_eq {committed aborted : List TxId} {records : List WalRecord} :
    ∀ {redo : PageFileRedo FileId} {d : Disk}, redo.pageFile.file = .data → FaultFree d →
    (∀ image ∈ records.filterMap (replayedImage committed aborted), Redoable image) →
    records.forM (redoRecord committed aborted) (redo, d) =
      (.ok (), ({ redo with redonePageImages := redo.redonePageImages +
          (records.filterMap (replayedImage committed aborted)).length },
        d.withPages ((records.filterMap (replayedImage committed aborted)).map Prod.snd))) := by
  induction records with
  | nil =>
      intro redo d _ _ _
      rfl
  | cons record records ih =>
      intro redo d hfile hd h
      rw [filterMap_cons_toList] at h ⊢
      rw [List.forall_mem_append] at h
      have hfirst := redoRecord_eq hfile hd
        fun image himage => h.1 image (by rw [himage]; simp)
      have hfree : FaultFree (d.withPages
          ((replayedImage committed aborted record).toList.map Prod.snd)) := fun n => by
        rw [(sameButData_withPages d _).faults]
        exact hd n
      have hrest := @ih { redo with redonePageImages :=
        redo.redonePageImages + (replayedImage committed aborted record).toList.length } _
        hfile hfree h.2
      refine (Exec.bind_of_ok hfirst).trans (hrest.trans ?_)
      rw [List.length_append, Nat.add_assoc, List.map_append, withPages_append]

/-- A pass on a disk without faults whose log has been read. -/
theorem recoverPageFile_of_read {records : List WalRecord} {u : Disk} (hu : FaultFree u)
    (hread : WalReader.readAll FileId.wal d = (.ok records, u))
    (hredo : ∀ image ∈ replayed records, Redoable image) :
    recoverPageFile ⟨FileId.data⟩ .wal d =
      (.ok ⟨⟨.data⟩, ⟨records.length, (replayed records).length⟩⟩,
        (u.withPages ((replayed records).map Prod.snd)).record ⟨.data, .sync, true⟩) := by
  have hforM := @forM_redoRecord_eq (committedIds records) (abortedIds records)
    records ⟨⟨.data⟩, 0⟩ u rfl hu hredo
  rw [← replayed] at hforM
  have hsame := sameButData_withPages u ((replayed records).map Prod.snd)
  generalize u.withPages ((replayed records).map Prod.snd) = e at hforM hsame
  have hfree : FaultFree e := fun n => by rw [hsame.faults]; exact hu n
  have hsync : syncData .data e = (.ok (), e.record ⟨.data, .sync, true⟩) := by
    simp only [syncData, hfree.nextFault, synced]
  rw [recoverPageFile, Exec.bind_of_ok hread]
  simp only [Exec.bind_apply, Exec.withLocal, redoCommittedPageImages, hforM, PageFile.syncData,
    vfs_syncData, hsync, Exec.pure_apply, Nat.zero_add]

/-- A pass over a whole log on a disk without faults. -/
theorem recoverPageFile_eq {records : List WalRecord} (hd : FaultFree d)
    (hbytes : d.wal.bytes = encodeLog records) (hlog : LogFrom 0 records)
    (hredo : ∀ image ∈ replayed records, Redoable image) :
    ∃ e, recoverPageFile ⟨FileId.data⟩ .wal d =
        (.ok ⟨⟨.data⟩, ⟨records.length, (replayed records).length⟩⟩, e) ∧
      e.data = d.data.putPages ((replayed records).map Prod.snd) ∧ e.wal = d.wal := by
  obtain ⟨u, hu, hread⟩ := readAll_encodeLog .wal hd hbytes hlog
  refine ⟨_, recoverPageFile_of_read (hu.faultFree hd) hread hredo, ?_, ?_⟩
  · rw [data_record, data_withPages, hu.data]
  · rw [wal_record, (sameButData_withPages u _).wal, hu.wal]

end Rdbms
