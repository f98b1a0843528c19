import Rdbms.Catalog.Canonical
import Rdbms.Catalog.Store
import Rdbms.Index.Stored
import Rdbms.Page.Corruption
import Rdbms.Vfs.Disk

/-!
# What is said about malformed pages

Both the catalog and the index nodes are the record in slot 0 of a page of their kind, and
both are read the same way. A page of the wrong kind, a dead slot and a record that does not
decode are reported as corrupt, but a page without any slot is answered with the error of a
caller that asked for a slot out of range. That is the only page that is reported as a
mistake of the user. A catalog page whose record announces more than there is memory for is
not reported at all: it ends the process.
-/

namespace Rdbms

open Library

/-- An exit with an I/O error. -/
def Stop.IsIo (stop : Stop) : Prop := ∃ kind, stop = .error (.io kind)

/-! ## The record in slot 0 -/

/-- The page has no slot at all, and the header names its kind. -/
def Page.Slotless (page : Page) (pageType : PageType) : Prop :=
  ∃ header, page.header = .ok header ∧ header.pageType = pageType ∧ header.slotCount = 0

section OnlyRecord

variable {α : Type} {page : Page} {h : PageHeader} {pageType : PageType}
  {wrongType : PageHeader → String} {missing : String} {decode : List UInt8 → DbResult α}

/-- Reading the record in slot 0 of a page that has no slot. -/
theorem onlyRecord_slotless (hv : page.Valid h) (htype : h.pageType = pageType)
    (hcount : h.slotCount = 0) :
    (do let header ← page.header
        failIf (header.pageType ≠ pageType) (DbResult.corruption (wrongType header))
        let record ← page.readRecord ⟨0⟩
        let bytes ← DbResult.okOr record (DbResult.corruption missing)
        decode bytes) = DbResult.user "slot 0 is out of range" := by
  have hheader := (Page.header_eq_ok_iff page h).2 hv.toShape
  have hrecord : page.readRecord ⟨0⟩ = DbResult.user "slot 0 is out of range" := by
    simp only [Page.readRecord, hheader, bind, Except.bind]
    rw [failIf_of (by rw [hcount]; decide)]
    rfl
  simp only [hheader, bind, Except.bind]
  rw [failIf_of_not (not_not.2 htype)]
  simp only [hrecord]

/-- Reading a record that is there. -/
theorem onlyRecord_live (hv : page.Valid h) (htype : h.pageType = pageType) {bytes : List UInt8}
    (hrecord : page.readRecord ⟨0⟩ = .ok (some bytes)) :
    (do let header ← page.header
        failIf (header.pageType ≠ pageType) (DbResult.corruption (wrongType header))
        let record ← page.readRecord ⟨0⟩
        let bytes ← DbResult.okOr record (DbResult.corruption missing)
        decode bytes) = decode bytes := by
  have hheader := (Page.header_eq_ok_iff page h).2 hv.toShape
  simp only [hheader, bind, Except.bind]
  rw [failIf_of_not (not_not.2 htype)]
  simp only [hrecord, DbResult.okOr]

/-- Every other page holds a record that decodes, or is corrupt. -/
theorem onlyRecord_failsIn (hv : page.Valid h)
    (hdecode : h.pageType = pageType → ∀ bytes, page.readRecord ⟨0⟩ = .ok (some bytes) →
      FailsIn Stop.IsCorruption (decode bytes))
    (hslot : ¬ (h.pageType = pageType ∧ h.slotCount = 0)) :
    FailsIn Stop.IsCorruption (do
      let header ← page.header
      failIf (header.pageType ≠ pageType) (DbResult.corruption (wrongType header))
      let record ← page.readRecord ⟨0⟩
      let bytes ← DbResult.okOr record (DbResult.corruption missing)
      decode bytes) := by
  refine (Page.header_failsIn page).bind fun header hheader => ?_
  cases ((Page.header_eq_ok_iff page header).1 hheader).unique hv.toShape
  refine FailsIn.failIf_bind (fun _ => ⟨_, rfl⟩) fun htype => ?_
  rw [not_not] at htype
  have hzero : (0 : UInt16).toNat < h.slotCount.toNat := by
    by_contra hzero
    refine hslot ⟨htype, UInt16.toNat_inj.1 ?_⟩
    rw [UInt16.toNat_zero] at hzero ⊢
    omega
  have hread : page.readRecord ⟨0⟩ = .ok (page.recordAt 0) := Page.readRecord_eq hv hzero
  rw [hread]
  refine (FailsIn.ok _).bind fun record hrecord => ?_
  cases hrecord
  cases hcase : page.recordAt 0 with
  | some bytes => exact hdecode htype bytes (by rw [hread, hcase])
  | none => exact (FailsIn.error ⟨_, rfl⟩).bind nofun

end OnlyRecord

theorem Page.valid_of_fromBytes {page : Page} (h : page.fromBytes = .ok page) :
    ∃ header, page.Valid header := by
  obtain ⟨⟨⟩, hvalidate, -⟩ := except_bind_eq_ok.1 h
  exact (Page.validate_eq_ok_iff page).1 hvalidate

/-- An accepted page gives its node or is reported as corrupt, unless it is an index page
without any slot. -/
theorem nodeFromPage_reports_corruption {page : Page} (haccepted : page.fromBytes = .ok page) :
    FailsIn Stop.IsCorruption (nodeFromPage page) ↔ ¬ page.Slotless .index := by
  obtain ⟨h, hv⟩ := Page.valid_of_fromBytes haccepted
  constructor
  · rintro hfails ⟨header, hheader, htype, hcount⟩
    cases ((Page.header_eq_ok_iff page header).1 hheader).unique hv.toShape
    obtain ⟨message, huser⟩ := hfails _ (onlyRecord_slotless hv htype hcount)
    cases huser
  · intro hslot
    refine onlyRecord_failsIn hv (fun _ bytes _ stop => decodeNode_error) ?_
    rintro ⟨htype, hcount⟩
    exact hslot ⟨h, (Page.header_eq_ok_iff page h).2 hv.toShape, htype, hcount⟩

/-! ## Loading the catalog -/

/-- The first page of the data file. -/
def Disk.firstPage (d : Disk) (h : pageSize ≤ d.data.bytes.length) : Page :=
  ⟨slice d.data.bytes 0 pageSize, length_slice (by simpa using h)⟩

/-- The page holds the record of a catalog that announces more than there is memory for. -/
def Page.Overcommitted (memory : Memory) (page : Page) : Prop :=
  ∃ header record, page.header = .ok header ∧ header.pageType = .catalog ∧
    page.readRecord ⟨0⟩ = .ok (some record) ∧ Catalog.Overcommits memory record

namespace Catalog

/-- The catalog in a page that was read for page 0. -/
def fromFirstPage (memory : Memory) (page : Page) : DbResult Catalog := do
  let page ← page.fromBytes
  let header ← page.header
  let requested := catalogPageId.val
  let inHeader := header.pageId.val
  failIf (header.pageId ≠ catalogPageId) (DbResult.corruption
    s!"page id mismatch on read: requested={requested}, page_header={inHeader}")
  fromPage memory page

section FirstPage

variable {memory : Memory} {page : Page}

theorem length_lt_of_readRecord {slotId : SlotId} {record : List UInt8}
    (h : page.readRecord slotId = .ok (some record)) : record.length < 2 ^ 64 := by
  have hlen : record.length ≤ 4096 := Page.length_le_of_readRecord h
  omega

theorem fromFirstPage_failsIn
    (hgood : ¬ (page.ValidAs catalogPageId ∧
      (page.Slotless .catalog ∨ page.Overcommitted memory))) :
    FailsIn Stop.IsCorruption (fromFirstPage memory page) := by
  refine (Page.fromBytes_failsIn page).bind fun q hq => ?_
  obtain ⟨⟨⟩, hvalidate, hq⟩ := except_bind_eq_ok.1 hq
  cases hq
  obtain ⟨h, hv⟩ := (Page.validate_eq_ok_iff page).1 hvalidate
  have hheader := (Page.header_eq_ok_iff page h).2 hv.toShape
  rw [hheader]
  refine (FailsIn.ok h).bind fun header hsame => ?_
  cases hsame
  refine FailsIn.failIf_bind (fun _ => ⟨_, rfl⟩) fun hid => ?_
  rw [not_not] at hid
  refine onlyRecord_failsIn hv (fun htype record hrecord => ?_) ?_
  · refine (decodeCatalog_reports_corruption (length_lt_of_readRecord hrecord)).2 fun hover => ?_
    exact hgood ⟨⟨h, hv, hid⟩, Or.inr ⟨h, record, hheader, htype, hrecord, hover⟩⟩
  · rintro ⟨htype, hcount⟩
    exact hgood ⟨⟨h, hv, hid⟩, Or.inl ⟨h, hheader, htype, hcount⟩⟩

/-- A page of the right id is taken for the catalog as it is. -/
theorem fromFirstPage_of_validAs (hid : page.ValidAs catalogPageId) :
    fromFirstPage memory page = fromPage memory page := by
  obtain ⟨h, hv, hid⟩ := hid
  rw [fromFirstPage, Page.fromBytes_of_valid hv]
  simp only [bind, Except.bind, (Page.header_eq_ok_iff page h).2 hv.toShape]
  rw [failIf_of_not (not_not.2 hid)]

theorem fromFirstPage_slotless (hid : page.ValidAs catalogPageId)
    (hslot : page.Slotless .catalog) :
    fromFirstPage memory page = DbResult.user "slot 0 is out of range" := by
  rw [fromFirstPage_of_validAs hid]
  obtain ⟨h, hv, -⟩ := hid
  obtain ⟨header, hsame, htype, hcount⟩ := hslot
  cases ((Page.header_eq_ok_iff page h).2 hv.toShape).symm.trans hsame
  exact onlyRecord_slotless hv htype hcount

theorem fromFirstPage_overcommitted (hid : page.ValidAs catalogPageId)
    (hover : page.Overcommitted memory) : fromFirstPage memory page = DbResult.aborted := by
  rw [fromFirstPage_of_validAs hid]
  obtain ⟨h, hv, -⟩ := hid
  obtain ⟨header, record, hsame, htype, hrecord, hover⟩ := hover
  cases ((Page.header_eq_ok_iff page h).2 hv.toShape).symm.trans hsame
  exact (onlyRecord_live hv htype hrecord).trans
    (decodeCatalog_of_overcommits hover (length_lt_of_readRecord hrecord))

end FirstPage

/-- Loading asks for the length of the file and for its first page. -/
theorem loadOrBootstrap_of_page {d : Disk} (h : pageSize ≤ d.data.bytes.length) :
    (loadOrBootstrap ⟨FileId.data⟩ d).1 =
      match d.faults d.trace.length, d.faults (d.trace.length + 1) with
      | some fault, _ => DbResult.io fault.kind
      | none, some fault => DbResult.io fault.kind
      | none, none => fromFirstPage d.memory (d.firstPage h) := by
  cases hfirst : d.faults d.trace.length with
  | some fault =>
      have hlen : PageFile.len (PageFile.mk FileId.data) d =
          (DbResult.io fault.kind, d.record ⟨.data, .len, false⟩) := by
        simp only [PageFile.len, Disk.vfs_len, Disk.len, Disk.nextFault, hfirst]
      rw [loadOrBootstrap, Exec.bind_of_error hlen]
  | none =>
      have hlen : PageFile.len (PageFile.mk FileId.data) d =
          (.ok (UInt64.ofNat d.data.bytes.length), d.record ⟨.data, .len, true⟩) := by
        simp only [PageFile.len, Disk.vfs_len, Disk.len, Disk.nextFault, hfirst]
        rfl
      have hnat := Disk.toNat_ofNat_length d.data
      have hne : UInt64.ofNat d.data.bytes.length ≠ 0 := by
        intro hzero
        rw [hzero] at hnat
        simp only [pageSize] at h
        simp at hnat
        omega
      have hoffset : pageOffset catalogPageId = .ok 0 := by decide
      rw [loadOrBootstrap, Exec.bind_of_ok hlen, if_neg hne,
        failIf_of_not (by rw [hnat]; exact not_lt.2 h), Exec.bind_of_ok (Exec.liftM_apply _ _)]
      cases hsecond : d.faults (d.trace.length + 1) with
      | some fault =>
          have hread : Disk.readExactAt .data 0 pageSize (d.record ⟨.data, .len, true⟩) =
              (DbResult.io fault.kind, (d.record ⟨.data, .len, true⟩).record
                ⟨.data, .read 0 pageSize, false⟩) := by
            simp only [Disk.readExactAt, Disk.nextFault, Disk.faults_record, Disk.trace_record,
              List.length_append, List.length_singleton, hsecond]
          simp only [PageFile.readPage, Exec.bind_apply, Exec.liftM_apply, hoffset,
            Disk.vfs_readExactAt, hread]
      | none =>
          have hread : Disk.readExactAt .data 0 pageSize (d.record ⟨.data, .len, true⟩) =
              (.ok (d.firstPage h).bytes, (d.record ⟨.data, .len, true⟩).record
                ⟨.data, .read 0 pageSize, true⟩) := by
            simp only [Disk.readExactAt, Disk.nextFault, Disk.faults_record, Disk.trace_record,
              List.length_append, List.length_singleton, hsecond]
            exact if_pos (Or.inr h)
          have hbuffer : Page.ofBuffer (d.firstPage h).bytes = .ok (d.firstPage h) :=
            dif_pos (d.firstPage h).size_eq
          simp only [PageFile.readPage, Exec.bind_apply, Exec.liftM_apply, hoffset,
            Disk.vfs_readExactAt, hread, hbuffer, fromFirstPage]
          generalize d.firstPage h = first
          cases first.fromBytes with
          | error stop => rfl
          | ok page =>
              cases hheader : page.header with
              | error stop =>
                  simp only [bind, Except.bind, hheader]
              | ok header =>
                  simp only [bind, Except.bind, hheader]
                  by_cases hid : header.pageId ≠ catalogPageId
                  · rw [failIf_of hid]
                  · rw [failIf_of_not hid]
                    rfl

/-- Loading the catalog of a file with at least one page, and reading the node of an
accepted page: what fails, fails as corrupt or with the I/O error of the file, unless the
page that is read is of the right kind and has no slot at all, or, for the catalog, its
record announces more than there is memory for. -/
theorem malformed_reported_iff (d : Disk) (page : Page) (hlen : pageSize ≤ d.data.bytes.length)
    (haccepted : page.fromBytes = .ok page) :
    ((∀ stop, (loadOrBootstrap ⟨FileId.data⟩ d).1 = .error stop →
        stop.IsCorruption ∨ stop.IsIo) ↔
      ¬ (d.faults d.trace.length = none ∧ d.faults (d.trace.length + 1) = none ∧
        (d.firstPage hlen).ValidAs catalogPageId ∧
        ((d.firstPage hlen).Slotless .catalog ∨ (d.firstPage hlen).Overcommitted d.memory))) ∧
    ((∀ stop, nodeFromPage page = .error stop → stop.IsCorruption) ↔
      ¬ page.Slotless .index) := by
  refine ⟨?_, nodeFromPage_reports_corruption haccepted⟩
  rw [loadOrBootstrap_of_page hlen]
  cases d.faults d.trace.length with
  | some fault =>
      constructor
      · rintro - ⟨hnone, -⟩
        cases hnone
      · rintro - stop ⟨⟩
        exact Or.inr ⟨fault.kind, rfl⟩
  | none =>
      cases d.faults (d.trace.length + 1) with
      | some fault =>
          constructor
          · rintro - ⟨-, hnone, -⟩
            cases hnone
          · rintro - stop ⟨⟩
            exact Or.inr ⟨fault.kind, rfl⟩
      | none =>
          constructor
          · rintro hfails ⟨-, -, hid, hslot | hover⟩
            · rcases hfails _ (fromFirstPage_slotless hid hslot) with ⟨message, h⟩ | ⟨kind, h⟩
              · cases h
              · cases h
            · rcases hfails _ (fromFirstPage_overcommitted hid hover) with ⟨message, h⟩ | ⟨kind, h⟩
              · cases h
              · cases h
          · intro hgood stop hstop
            refine Or.inl (fromFirstPage_failsIn (fun hbad => ?_) stop hstop)
            exact hgood ⟨rfl, rfl, hbad⟩

/-! ## Pages without a slot -/

theorem new_slotless (pageId : PageId) (pageType : PageType) :
    (Page.new pageId pageType).Slotless pageType :=
  ⟨_, (Page.header_eq_ok_iff _ _).2 (Page.new_valid pageId pageType).toShape, rfl, rfl⟩

/-- A fault-free disk whose data file is one page. -/
def diskOfPage (page : Page) : Disk :=
  Disk.holding ⟨page.bytes, by rw [page.size_eq]; decide⟩ .empty fun _ => none

theorem diskOfPage_length (page : Page) : pageSize ≤ (diskOfPage page).data.bytes.length :=
  Nat.le_of_eq page.size_eq.symm

theorem diskOfPage_firstPage (page : Page) :
    (diskOfPage page).firstPage (diskOfPage_length page) = page := by
  apply Page.ext_bytes
  have hbytes := slice_zero_length page.bytes
  rwa [page.size_eq] at hbytes

/-- A formatted page without a record is valid in both places and reported as a mistake of
the user. -/
theorem slotless_pages_are_user_errors :
    (Page.new ⟨1⟩ .index).fromBytes = .ok (Page.new ⟨1⟩ .index) ∧
    nodeFromPage (Page.new ⟨1⟩ .index) = DbResult.user "slot 0 is out of range" ∧
    (loadOrBootstrap ⟨FileId.data⟩ (diskOfPage (Page.new catalogPageId .catalog))).1 =
        DbResult.user "slot 0 is out of range" := by
  have hindex := Page.new_valid ⟨1⟩ .index
  have hcatalog := Page.new_valid catalogPageId .catalog
  refine ⟨Page.fromBytes_of_valid hindex, onlyRecord_slotless hindex rfl rfl, ?_⟩
  rw [loadOrBootstrap_of_page (diskOfPage_length _), diskOfPage_firstPage]
  exact fromFirstPage_slotless ⟨_, hcatalog, rfl⟩ (new_slotless _ _)

/-- A heap page where an index node is expected is corrupt. -/
theorem heap_page_reported_as_corrupt :
    (Page.new ⟨1⟩ .heap).fromBytes = .ok (Page.new ⟨1⟩ .heap) ∧
      ∀ stop, nodeFromPage (Page.new ⟨1⟩ .heap) = .error stop → stop.IsCorruption := by
  have hheap := Page.new_valid ⟨1⟩ .heap
  have haccepted := Page.fromBytes_of_valid hheap
  refine ⟨haccepted, (malformed_reported_iff _ (Page.new ⟨1⟩ .heap)
    (diskOfPage_length (Page.new ⟨0⟩ .heap)) haccepted).2.2 ?_⟩
  rintro ⟨header, hheader, htype, -⟩
  cases ((Page.header_eq_ok_iff _ header).1 hheader).unique hheap.toShape
  cases htype

end Catalog

end Rdbms
