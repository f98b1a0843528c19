import Rdbms.Recovery.Basic

/-!
# Restarting recovery

A recovery pass that is interrupted has made some of its page writes, and may have
torn the next one. Run again over the same log, it writes every page of the first
run once more, so that nothing of what was left behind survives: the file agrees
with the original one outside those pages, and the pages themselves are
overwritten.
-/

namespace Rdbms

open Library Disk ByteFile

/-! ## Interrupted writes -/

namespace ByteFile

/-- The byte at `i`; behind the end of the file it counts as zero. -/
def byteAt (f : ByteFile) (i : Nat) : UInt8 := (f.bytes[i]?).getD 0

/-- A write of `len` bytes at `offset` that was cut off: it left arbitrary bytes in
its own range, and the file is at most as long as the full write would make it. -/
structure Torn (f : ByteFile) (offset len : Nat) (f' : ByteFile) : Prop where
  length_le : f.bytes.length ≤ f'.bytes.length
  le_length : f'.bytes.length ≤ max f.bytes.length (offset + len)
  outside : ∀ i, i < offset ∨ offset + len ≤ i → f'.byteAt i = f.byteAt i

/-- The file after the given writes. -/
def applyWrites (f : ByteFile) (writes : List (UInt64 × List UInt8)) : ByteFile :=
  writes.foldl (fun f write => f.write write.1.toNat write.2) f

/-- Interrupted after `k` of the writes, or while making the next one. -/
def Interrupted (f : ByteFile) (writes : List (UInt64 × List UInt8)) (k : Nat)
    (f' : ByteFile) : Prop :=
  f' = f.applyWrites (writes.take k) ∨
    ∃ write, writes[k]? = some write ∧
      Torn (f.applyWrites (writes.take k)) write.1.toNat write.2.length f'

/-- How long the file is once the pages have been written. -/
def extent (n : Nat) (pages : List Page) : Nat :=
  pages.foldl (fun n page => max n ((page.number + 1) * pageSize)) n

/-- Two files that become the same once the pages have been written to them. -/
structure AgreeUpTo (pages : List Page) (f g : ByteFile) : Prop where
  extent_eq : extent g.bytes.length pages = extent f.bytes.length pages
  outside : ∀ i, (∀ page ∈ pages,
    i < page.number * pageSize ∨ (page.number + 1) * pageSize ≤ i) → g.byteAt i = f.byteAt i

variable {f g h : ByteFile} {page : Page} {pages : List Page}

theorem AgreeUpTo.refl (pages : List Page) (f : ByteFile) : AgreeUpTo pages f f :=
  ⟨rfl, fun _ _ => rfl⟩

theorem AgreeUpTo.trans (hfg : AgreeUpTo pages f g) (hgh : AgreeUpTo pages g h) :
    AgreeUpTo pages f h :=
  ⟨hgh.extent_eq.trans hfg.extent_eq,
    fun i hi => (hgh.outside i hi).trans (hfg.outside i hi)⟩

theorem extent_max (n m : Nat) (pages : List Page) :
    extent (max n m) pages = max (extent n pages) m := by
  induction pages generalizing n with
  | nil => rfl
  | cons page pages ih =>
      rw [extent, List.foldl_cons, ← extent, max_right_comm, ih, extent, extent, List.foldl_cons]

theorem le_extent (n : Nat) (pages : List Page) : n ≤ extent n pages := by
  induction pages generalizing n with
  | nil => exact le_rfl
  | cons page pages ih => exact (le_max_left _ _).trans (ih _)

theorem end_le_extent (n : Nat) (hpage : page ∈ pages) :
    (page.number + 1) * pageSize ≤ extent n pages := by
  induction pages generalizing n with
  | nil => cases hpage
  | cons page' pages ih =>
      rcases List.mem_cons.1 hpage with rfl | hmem
      · exact (le_max_right _ _).trans (le_extent _ pages)
      · exact ih _ hmem

theorem extent_mono {n m : Nat} (hle : n ≤ m) (pages : List Page) :
    extent n pages ≤ extent m pages := by
  have hmax : m = max n m := (Nat.max_eq_right hle).symm
  rw [hmax, extent_max]
  exact le_max_left _ _

/-- A torn write of one of the pages does not matter. -/
theorem Torn.agree (h : Torn f (page.number * pageSize) page.bytes.length g)
    (hpage : page ∈ pages) : AgreeUpTo pages f g where
  extent_eq := by
    refine le_antisymm ?_ (extent_mono h.length_le pages)
    have hle := extent_mono h.le_length pages
    rw [page_end, extent_max, max_eq_left (end_le_extent _ hpage)] at hle
    exact hle
  outside i hi := h.outside i (by rw [page_end]; exact hi page hpage)

theorem byteAt_putPage {n : Nat} (hfits : Fits n) (i : Nat) :
    (f.putPage n page).byteAt i =
      if i < n * pageSize ∨ (n + 1) * pageSize ≤ i then f.byteAt i
      else (page.bytes[i - n * pageSize]?).getD 0 := by
  rw [byteAt, getElem?_putPage hfits]
  by_cases hlo : i < n * pageSize
  · rw [if_pos hlo, if_pos (Or.inl hlo), byteAt]
    by_cases hin : i < f.bytes.length
    · rw [if_pos hin]
    · rw [if_neg hin, List.getElem?_eq_none (by omega)]
      rfl
  · rw [if_neg hlo]
    by_cases hhi : i < (n + 1) * pageSize
    · rw [if_pos hhi, if_neg (by omega)]
    · rw [if_neg hhi, if_pos (Or.inr (by omega)), byteAt]

/-- A full write is a special case of a torn one. -/
theorem torn_putPage (hfits : Fits page.number) :
    Torn f (page.number * pageSize) page.bytes.length (f.putPage page.number page) where
  length_le := by
    rw [length_putPage hfits]
    exact le_max_right _ _
  le_length := by
    rw [length_putPage hfits, page_end, max_comm]
  outside i hi := by
    rw [page_end] at hi
    rw [byteAt_putPage hfits, if_pos hi]

theorem agree_putPages {written : List Page} (hmem : ∀ page ∈ written, page ∈ pages)
    (hfits : ∀ page ∈ written, Fits page.number) : AgreeUpTo pages f (f.putPages written) := by
  induction written generalizing f with
  | nil => exact AgreeUpTo.refl pages f
  | cons page written ih =>
      rw [List.forall_mem_cons] at hmem hfits
      exact ((torn_putPage hfits.1).agree hmem.1).trans (ih hmem.2 hfits.2)

theorem ext_byteAt (hlen : f.bytes.length = g.bytes.length) (hat : ∀ i, f.byteAt i = g.byteAt i) :
    f = g := by
  have hbytes : f.bytes = g.bytes := by
    refine List.ext_getElem hlen fun i hf hg => ?_
    have := hat i
    rwa [byteAt, byteAt, List.getElem?_eq_getElem hf, List.getElem?_eq_getElem hg] at this
  cases f
  cases g
  cases hbytes
  rfl

/-- Writing the pages makes the two files equal. -/
theorem AgreeUpTo.putPages (h : AgreeUpTo pages f g) (hfits : ∀ page ∈ pages, Fits page.number) :
    g.putPages pages = f.putPages pages := by
  induction pages generalizing f g with
  | nil => exact ext_byteAt h.extent_eq fun i => h.outside i nofun
  | cons page pages ih =>
      rw [List.forall_mem_cons] at hfits
      refine ih ⟨?_, ?_⟩ hfits.2
      · rw [length_putPage hfits.1, length_putPage hfits.1, max_comm, max_comm _ f.bytes.length]
        exact h.extent_eq
      · intro i hi
        rw [byteAt_putPage hfits.1, byteAt_putPage hfits.1]
        by_cases hout : i < page.number * pageSize ∨ (page.number + 1) * pageSize ≤ i
        · rw [if_pos hout, if_pos hout]
          exact h.outside i (List.forall_mem_cons.2 ⟨hout, hi⟩)
        · rw [if_neg hout, if_neg hout]

end ByteFile

/-! ## Computations that look at one file -/

/-- The computation looks at the file and nothing else: on a disk without faults it
leaves the files alone, and what it gives depends on the bytes of the file only. -/
def LooksAt {α : Type} (fileId : FileId) (m : Db Disk α) : Prop :=
  ∀ d d', FaultFree d → FaultFree d' → d'.file fileId = d.file fileId →
    SameFiles d (m d).2 ∧ (m d').1 = (m d).1

section LooksAt

variable {α β : Type} {fileId : FileId}

theorem LooksAt.bind {m : Db Disk α} {f : α → Db Disk β} (hm : LooksAt fileId m)
    (hf : ∀ a, LooksAt fileId (f a)) : LooksAt fileId (m >>= f) := by
  intro d d' hd hd' hfile
  obtain ⟨hsame, hres⟩ := hm d d' hd hd' hfile
  obtain ⟨hsame', -⟩ := hm d' d hd' hd hfile.symm
  rw [Exec.bind_apply, Exec.bind_apply]
  rcases hrun : m d with ⟨stop | a, e⟩
  · rw [hrun] at hsame hres
    rcases hrun' : m d' with ⟨stop' | a', e'⟩
    · rw [hrun'] at hres
      cases hres
      exact ⟨hsame, rfl⟩
    · rw [hrun'] at hres
      cases hres
  · rw [hrun] at hsame hres
    rcases hrun' : m d' with ⟨stop' | a', e'⟩
    · rw [hrun'] at hres
      cases hres
    · rw [hrun'] at hsame' hres
      cases hres
      have hfiles : e'.file fileId = e.file fileId := by
        rw [hsame'.file, hsame.file, hfile]
      obtain ⟨hlater, hres'⟩ := hf a e e' (hsame.faultFree hd) (hsame'.faultFree hd') hfiles
      exact ⟨hsame.trans hlater, hres'⟩

theorem LooksAt.pure (a : α) : LooksAt fileId (Pure.pure a) :=
  fun d _ _ _ _ => ⟨SameFiles.refl d, rfl⟩

theorem LooksAt.liftM (r : DbResult α) : LooksAt fileId (liftM r) :=
  fun d _ _ _ _ => ⟨SameFiles.refl d, rfl⟩

theorem readExactAt_looksAt (offset : UInt64) (n : Nat) :
    LooksAt fileId (readExactAt fileId offset n) := by
  intro d d' hd hd' hfile
  simp only [readExactAt, hd.nextFault, hd'.nextFault, hfile]
  split
  · exact ⟨sameFiles_record d _, rfl⟩
  · exact ⟨sameFiles_record d _, rfl⟩

theorem len_looksAt : LooksAt fileId (len fileId) := by
  intro d d' hd hd' hfile
  simp only [len, hd.nextFault, hd'.nextFault, hfile]
  exact ⟨sameFiles_record d _, trivial⟩

/-- What the log is read as depends on its bytes only. -/
theorem readAll_looksAt (fileId : FileId) : LooksAt fileId (WalReader.readAll fileId) :=
  readAll_closed (fun m => LooksAt fileId m) (fun hm hf => hm.bind hf) LooksAt.pure LooksAt.liftM
    readExactAt_looksAt len_looksAt

end LooksAt

/-! ## A pass that has succeeded -/

section Pass

variable {d : Disk} {redo : PageFileRedo FileId} {committed aborted : List TxId}

/-- A record that was redone had an image that recovery accepts. -/
theorem redoable_of_redoRecord {record : WalRecord} {s : PageFileRedo FileId × Disk} {u : Unit}
    (hfile : redo.pageFile.file = .data) (hd : FaultFree d)
    (hrun : redoRecord committed aborted record (redo, d) = (.ok u, s)) :
    ∀ image, replayedImage committed aborted record = some image → Redoable image := by
  intro image himage
  obtain ⟨lsn, kind⟩ := record
  cases kind with
  | beginTx txId => cases himage
  | commitTx txId => cases himage
  | abortTx txId => cases himage
  | checkpoint => cases himage
  | pageImage txId pageId page =>
      by_cases hmem : txId ∈ committed ∧ txId ∉ aborted
      case neg =>
        simp only [replayedImage, if_neg hmem] at himage
        cases himage
      simp only [replayedImage, if_pos hmem, Option.some.injEq] at himage
      subst himage
      simp only [redoRecord, if_pos hmem] at hrun
      obtain ⟨raw, s₁, hraw, hrest⟩ := Exec.bind_eq_ok.1 hrun
      obtain ⟨header, s₂, hheader, hrest'⟩ := Exec.bind_eq_ok.1 hrest
      obtain ⟨⟨⟩, s₃, hid, hredo⟩ := Exec.bind_eq_ok.1 hrest'
      obtain ⟨hfrom, rfl⟩ := Exec.liftM_eq_ok.1 hraw
      obtain ⟨hparsed, rfl⟩ := Exec.liftM_eq_ok.1 hheader
      obtain ⟨hmatch, rfl⟩ := Exec.liftM_eq_ok.1 hid
      obtain ⟨⟨⟩, hvalidate, hret⟩ := except_bind_eq_ok.1 hfrom
      cases hret
      obtain ⟨header', hvalid⟩ := (Page.validate_eq_ok_iff page).1 hvalidate
      have hsame := hvalid.toShape.unique ((Page.header_eq_ok_iff page header).1 hparsed)
      have hpage : page.ValidAs pageId :=
        ⟨header', hvalid, by rw [hsame]; exact not_not.1 (failIf_eq_ok.1 hmatch)⟩
      refine ⟨hpage, ?_⟩
      rcases writePage_crashOnly hfile hd.crashOnly ⟨pageId, hpage⟩ with ⟨hfits, -⟩ |
        ⟨stop, e, hwrite, -⟩
      · exact hfits
      · simp only [PageImageRedo.redoPageImage, fromBytes_of_validAs hpage, Exec.bind_apply,
          Exec.liftM_apply, Exec.get_apply, Exec.onRight_apply, writePageAt_of_validAs _ hpage,
          hwrite] at hredo
        cases hredo

theorem redoable_of_forM {records : List WalRecord} : ∀ {redo : PageFileRedo FileId} {d : Disk}
    {s : PageFileRedo FileId × Disk} {u : Unit}, redo.pageFile.file = .data → FaultFree d →
    records.forM (redoRecord committed aborted) (redo, d) = (.ok u, s) →
    ∀ image ∈ records.filterMap (replayedImage committed aborted), Redoable image := by
  induction records with
  | nil =>
      intro redo d s u _ _ _ image himage
      cases himage
  | cons record records ih =>
      intro redo d s u hfile hd hrun
      obtain ⟨⟨⟩, s₁, hfirst, hrest⟩ := Exec.bind_eq_ok.1 hrun
      have hredo := redoable_of_redoRecord hfile hd hfirst
      rw [redoRecord_eq hfile hd hredo] at hfirst
      cases hfirst
      rw [filterMap_cons_toList, List.forall_mem_append]
      refine ⟨fun image himage => hredo image (Option.mem_toList.1 himage), ?_⟩
      refine ih ?_ (fun n => ?_) hrest
      · exact hfile
      · rw [(sameButData_withPages d _).faults]
        exact hd n

/-- What a pass that succeeds has done. -/
theorem recoverPageFile_eq_ok {e : Disk} {db : RecoveredDatabase FileId} (hd : FaultFree d)
    (hrun : recoverPageFile ⟨FileId.data⟩ .wal d = (.ok db, e)) :
    ∃ records u, WalReader.readAll FileId.wal d = (.ok records, u) ∧ SameFiles d u ∧
      (∀ image ∈ replayed records, Redoable image) ∧
      db = ⟨⟨.data⟩, ⟨records.length, (replayed records).length⟩⟩ ∧
      e = (u.withPages ((replayed records).map Prod.snd)).record ⟨.data, .sync, true⟩ := by
  obtain ⟨records, u, hread, hrest⟩ := Exec.bind_eq_ok.1 hrun
  have hsame : SameFiles d u := by
    have hlooks := (readAll_looksAt .wal d d hd hd rfl).1
    rwa [hread] at hlooks
  have hfree := hsame.faultFree hd
  have hredo : ∀ image ∈ replayed records, Redoable image := by
    obtain ⟨⟨⟨⟩, redo⟩, v, hlocal, -⟩ := Exec.bind_eq_ok.1 hrest
    rw [Exec.withLocal] at hlocal
    rcases hpass : redoCommittedPageImages records (PageFileRedo.mk ⟨FileId.data⟩ 0, u) with
      ⟨stop | ⟨⟨⟩⟩, s⟩
    · rw [hpass] at hlocal
      cases hlocal
    · exact redoable_of_forM rfl hfree hpass
  rw [recoverPageFile_of_read hfree hread hredo] at hrun
  cases hrun
  exact ⟨records, u, hread, hsame, hredo, rfl, rfl⟩

end Pass

/-! ## Running it again -/

/-- The writes to the data file among the operations. -/
def dataWrites (events : List Event) : List (UInt64 × List UInt8) :=
  events.filterMap fun event =>
    match event.file, event.op with
    | .data, .write offset data => some (offset, data)
    | _, _ => none

/-- The write of a page, as an offset and bytes. -/
def Page.write (page : Page) : UInt64 × List UInt8 :=
  (UInt64.ofNat (page.number * pageSize), page.bytes)

section Again

variable {f f' : ByteFile} {pages : List Page}

theorem toNat_write {page : Page} (hfits : Fits page.number) :
    page.write.1.toNat = page.number * pageSize := by
  rw [Page.write, UInt64.toNat_ofNat', Nat.mod_eq_of_lt hfits.offset_lt]

theorem applyWrites_eq_putPages (hfits : ∀ page ∈ pages, Fits page.number) :
    f.applyWrites (pages.map Page.write) = f.putPages pages := by
  induction pages generalizing f with
  | nil => rfl
  | cons page pages ih =>
      rw [List.forall_mem_cons] at hfits
      have hfirst : f.write page.write.1.toNat page.write.2 = f.putPage page.number page := by
        rw [toNat_write hfits.1]
        rfl
      rw [List.map_cons, applyWrites, List.foldl_cons, ← applyWrites, hfirst, ih hfits.2]
      rfl

/-- Wherever the writes were interrupted, making all of them again ends in the same
file. -/
theorem putPages_of_interrupted {k : Nat} (h : Interrupted f (pages.map Page.write) k f')
    (hfits : ∀ page ∈ pages, Fits page.number) : f'.putPages pages = f.putPages pages := by
  have htake : ∀ page ∈ pages.take k, page ∈ pages := fun page => List.mem_of_mem_take
  have hdone : f.applyWrites ((pages.map Page.write).take k) = f.putPages (pages.take k) := by
    rw [← List.map_take, applyWrites_eq_putPages fun page hpage => hfits page (htake page hpage)]
  have hagree : AgreeUpTo pages f (f.putPages (pages.take k)) :=
    agree_putPages htake fun page hpage => hfits page (htake page hpage)
  rcases h with rfl | ⟨write, hwrite, htorn⟩
  · rw [hdone]
    exact hagree.putPages hfits
  · rw [List.getElem?_map, Option.map_eq_some_iff] at hwrite
    obtain ⟨page, hpage, rfl⟩ := hwrite
    have hmem := List.mem_of_getElem? hpage
    rw [hdone, toNat_write (hfits page hmem)] at htorn
    exact (hagree.trans (htorn.agree hmem)).putPages hfits

end Again

/-- Reading the log only looks at the disk. -/
theorem readAll_onlyReads (fileId : FileId) :
    Exec.Preserves OnlyReads (WalReader.readAll fileId) :=
  readAll_closed (fun m => Exec.Preserves OnlyReads m) (fun hm hf => hm.bind hf)
    Exec.Preserves.pure Exec.Preserves.liftM (readExactAt_onlyReads fileId) (len_onlyReads fileId)

theorem dataWrites_append (xs ys : List Event) :
    dataWrites (xs ++ ys) = dataWrites xs ++ dataWrites ys := List.filterMap_append

theorem dataWrites_of_reads {events : List Event} (h : ∀ ev ∈ events, VfsOp.isRead ev.op) :
    dataWrites events = [] := by
  rw [dataWrites, List.filterMap_eq_nil_iff]
  intro ev hev
  have hread := h ev hev
  obtain ⟨file, op, ok⟩ := ev
  cases op with
  | write offset data => cases hread
  | read offset n => cases file <;> rfl
  | len => cases file <;> rfl
  | sync => cases file <;> rfl

theorem dataWrites_pages (pages : List Page) :
    dataWrites (pages.map Page.writeEvent) = pages.map Page.write := by
  induction pages with
  | nil => rfl
  | cons page pages ih => exact congrArg (List.cons page.write) ih

/-- The writes of a pass that succeeds. -/
theorem recover_events {records : List WalRecord} {d u : Disk}
    (hread : WalReader.readAll FileId.wal d = (.ok records, u)) (pages : List Page) :
    ∃ events, ((u.withPages pages).record ⟨.data, .sync, true⟩).trace = d.trace ++ events ∧
      dataWrites events = pages.map Page.write := by
  obtain ⟨events, htrace, hreads⟩ := ((readAll_onlyReads FileId.wal).rel hread).trace
  refine ⟨events ++ (pages.map Page.writeEvent ++ [⟨.data, .sync, true⟩]), ?_, ?_⟩
  · rw [trace_record, trace_withPages, htrace, List.append_assoc, List.append_assoc]
  · rw [dataWrites_append, dataWrites_append, dataWrites_of_reads hreads, dataWrites_pages,
      List.nil_append]
    exact List.append_nil _

/-- A recovery pass that succeeds, interrupted after any number of its page writes and
with the next one torn, is finished by a second pass over the same log: the report is
the same, and so is every byte of the data file. -/
theorem recovery_restartable {d e : Disk} {db : RecoveredDatabase FileId} (hd : FaultFree d)
    (hrun : recoverPageFile ⟨FileId.data⟩ .wal d = (.ok db, e)) :
    ∃ events, e.trace = d.trace ++ events ∧
      e.data = d.data.applyWrites (dataWrites events) ∧
      (∀ (k : Nat) (d' : Disk), Interrupted d.data (dataWrites events) k d'.data →
        d'.wal = d.wal → FaultFree d' →
        ∃ e', recoverPageFile ⟨FileId.data⟩ .wal d' = (.ok db, e') ∧ e'.data = e.data) ∧
      ∃ e', recoverPageFile ⟨FileId.data⟩ .wal e = (.ok db, e') ∧ e'.data = e.data := by
  obtain ⟨records, u, hread, hsame, hredo, rfl, rfl⟩ := recoverPageFile_eq_ok hd hrun
  obtain ⟨events, htrace, hwrites⟩ := recover_events hread ((replayed records).map Prod.snd)
  have hfits : ∀ page ∈ (replayed records).map Prod.snd, Fits page.number := by
    intro page hpage
    obtain ⟨image, himage, rfl⟩ := List.mem_map.1 hpage
    exact (hredo image himage).2
  have hdata : ((u.withPages ((replayed records).map Prod.snd)).record
      ⟨.data, .sync, true⟩).data = d.data.putPages ((replayed records).map Prod.snd) := by
    rw [data_record, data_withPages, hsame.data]
  have hwal : ((u.withPages ((replayed records).map Prod.snd)).record
      ⟨.data, .sync, true⟩).wal = d.wal := by
    rw [wal_record, (sameButData_withPages u _).wal, hsame.wal]
  have hagain : ∀ (k : Nat) (d' : Disk),
      Interrupted d.data (((replayed records).map Prod.snd).map Page.write) k d'.data →
      d'.wal = d.wal → FaultFree d' →
      ∃ e', recoverPageFile ⟨FileId.data⟩ .wal d' =
          (.ok ⟨⟨.data⟩, ⟨records.length, (replayed records).length⟩⟩, e') ∧
        e'.data = d.data.putPages ((replayed records).map Prod.snd) := by
    intro k d' hinterrupted hwal' hd'
    obtain ⟨hsame', hres⟩ := readAll_looksAt .wal d' d hd' hd (by exact hwal'.symm)
    rw [hread] at hres
    have hread' : WalReader.readAll FileId.wal d' =
        (.ok records, (WalReader.readAll FileId.wal d').2) := Prod.ext hres.symm rfl
    refine ⟨_, recoverPageFile_of_read (hsame'.faultFree hd') hread' hredo, ?_⟩
    rw [data_record, data_withPages, hsame'.data, putPages_of_interrupted hinterrupted hfits]
  have happly : d.data.applyWrites (((replayed records).map Prod.snd).map Page.write) =
      d.data.putPages ((replayed records).map Prod.snd) := applyWrites_eq_putPages hfits
  rw [hdata]
  refine ⟨events, htrace, ?_, ?_, ?_⟩
  · rw [hwrites, happly]
  · rw [hwrites]
    exact hagain
  · refine hagain (((replayed records).map Prod.snd).map Page.write).length _ (Or.inl ?_) hwal ?_
    · rw [List.take_length, happly, hdata]
    · intro n
      rw [faults_record, (sameButData_withPages u _).faults]
      exact hsame.faultFree hd n

/-- The log of one transaction that has written an empty heap page. -/
def oneImageLog : List WalRecord :=
  [⟨⟨0⟩, .pageImage ⟨1⟩ ⟨0⟩ (Page.new ⟨0⟩ .heap)⟩, ⟨⟨4136⟩, .commitTx ⟨1⟩⟩]

theorem redoable_of_validAs {page : Page} {pageId : PageId} (h : page.ValidAs pageId)
    (hfits : Fits pageId.val.toNat) : Redoable (pageId, page) :=
  ⟨h, by rw [h.number]; exact hfits⟩

theorem length_oneImageLog : (encodeLog oneImageLog).length = 4176 := by
  simp [encodeLog, oneImageLog, WalRecord.length_bytes, WalRecordKind.encodedLen,
    WalRecordKind.payload, Page.size_eq, Wal.headerSize, pageSize]

theorem logFrom_oneImageLog : LogFrom 0 oneImageLog := by
  simp [LogFrom, oneImageLog, WalRecordKind.encodedLen, WalRecordKind.payload, Page.size_eq,
    Wal.headerSize, pageSize]

def oneImageFile : ByteFile := ⟨encodeLog oneImageLog, by rw [length_oneImageLog]; decide⟩

/-- What is left of the page when the write is cut off after 100 bytes. -/
def cutOff (page : Page) : ByteFile := ⟨page.bytes.take 100, by
  rw [List.length_take]
  omega⟩

theorem interrupted_cutOff {page : Page} (hnumber : page.number = 0) :
    Interrupted .empty [page.write] 0 (cutOff page) := by
  have hlen : (cutOff page).bytes.length ≤ page.write.2.length := by
    rw [cutOff, List.length_take]
    exact Nat.min_le_right _ _
  refine Or.inr ⟨page.write, rfl, ?_⟩
  rw [toNat_write (by rw [hnumber]; exact fits_zero), hnumber, Nat.zero_mul]
  constructor
  case length_le => exact Nat.zero_le _
  case le_length =>
    rw [Nat.zero_add]
    exact hlen.trans (Nat.le_max_right _ _)
  case outside =>
    intro i hi
    rw [byteAt, List.getElem?_eq_none (by omega)]
    rfl

/-- One committed image, the pass cut off while it writes the page. -/
theorem recovery_restartable_one_image :
    ∃ e e' e'' db,
      recoverPageFile ⟨FileId.data⟩ .wal (holding .empty oneImageFile fun _ => none) = (.ok db, e) ∧
      db.report = ⟨2, 1⟩ ∧
      recoverPageFile ⟨FileId.data⟩ .wal
        (holding (cutOff (Page.new ⟨0⟩ .heap)) oneImageFile fun _ => none) = (.ok db, e') ∧
      e'.data = e.data ∧
      recoverPageFile ⟨FileId.data⟩ .wal e = (.ok db, e'') ∧ e''.data = e.data := by
  have hvalid : (Page.new ⟨0⟩ .heap).ValidAs ⟨0⟩ := ⟨_, Page.new_valid ⟨0⟩ .heap, rfl⟩
  have hreplayed : replayed oneImageLog = [(⟨0⟩, Page.new ⟨0⟩ .heap)] := rfl
  have hredo : ∀ image ∈ replayed oneImageLog, Redoable image := by
    intro image himage
    rw [hreplayed, List.mem_singleton] at himage
    rw [himage]
    exact redoable_of_validAs hvalid fits_zero
  have hpages : (replayed oneImageLog).map Prod.snd = [Page.new ⟨0⟩ .heap] := by
    rw [hreplayed, List.map_singleton]
  have hfree : FaultFree (holding .empty oneImageFile fun _ => none) := fun _ => rfl
  obtain ⟨u, hsame, hread⟩ := readAll_encodeLog .wal hfree rfl logFrom_oneImageLog
  have hrun := recoverPageFile_of_read (hsame.faultFree hfree) hread hredo
  obtain ⟨events, htrace, hwrites⟩ := recover_events hread ((replayed oneImageLog).map Prod.snd)
  obtain ⟨events', htrace', -, hinterrupted, e'', hagain⟩ := recovery_restartable hfree hrun
  obtain rfl : events' = events := List.append_cancel_left (htrace'.symm.trans htrace)
  obtain ⟨e', hrestart⟩ := hinterrupted 0
    (holding (cutOff (Page.new ⟨0⟩ .heap)) oneImageFile fun _ => none)
    (by
      rw [hwrites, hpages, data_holding, data_holding, List.map_singleton]
      exact interrupted_cutOff hvalid.number)
    (by rw [wal_holding, wal_holding]) (fun _ => rfl)
  exact ⟨_, e', e'', _, hrun, rfl, hrestart.1, hrestart.2, hagain⟩

end Rdbms
