import Rdbms.Vfs.Disk

/-!
# The pages of a data file

A data file is seen here as the pages it holds. `f.Holds n page` says that page
`n` lies in the file and has the bytes of `page`. `f.window n` is what page `n`
reads as when a missing tail of the file counts as zeros, which is what a later
write behind it turns the tail into.
-/

namespace Rdbms

open Library Disk

namespace ByteFile

/-- The bytes of page `n`; a byte behind the end of the file counts as zero. -/
def window (f : ByteFile) (n : Nat) : List UInt8 :=
  (List.range pageSize).map fun i => (f.bytes[n * pageSize + i]?).getD 0

/-- The file holds the page in full. -/
def Holds (f : ByteFile) (n : Nat) (page : Page) : Prop :=
  slice f.bytes (n * pageSize) pageSize = page.bytes

end ByteFile

/-- The id in the header of a page. -/
def Page.id (page : Page) : PageId := ⟨page.u64At Page.offPageId⟩

def Page.number (page : Page) : Nat := page.id.val.toNat

theorem PageId.toNat_ne {i j : PageId} (h : i ≠ j) : i.val.toNat ≠ j.val.toNat := by
  intro hnat
  cases i
  cases j
  exact h (congrArg PageId.mk (UInt64.toNat_inj.1 hnat))

theorem Page.ValidAs.id {page : Page} {pageId : PageId} (h : page.ValidAs pageId) :
    page.id = pageId := by
  obtain ⟨header, hvalid, rfl⟩ := h
  exact congrArg PageId.mk hvalid.pageId

theorem Page.ValidAs.number {page : Page} {pageId : PageId} (h : page.ValidAs pageId) :
    page.number = pageId.val.toNat := by
  rw [Page.number, h.id]

namespace ByteFile

/-- Overwrite page `n`. -/
def putPage (f : ByteFile) (n : Nat) (page : Page) : ByteFile := f.write (n * pageSize) page.bytes

/-- A page number whose page ends below the largest file length. -/
def Fits (n : Nat) : Prop := n + 1 < 2 ^ 52

theorem fits_zero : Fits 0 := by
  rw [Fits]
  omega

variable {f : ByteFile} {n m : Nat} {page : Page}

theorem Fits.end_lt (h : Fits n) : (n + 1) * pageSize < 2 ^ 64 :=
  calc (n + 1) * pageSize < 2 ^ 52 * pageSize := Nat.mul_lt_mul_of_pos_right h (by decide)
    _ = 2 ^ 64 := by decide

theorem fits_of_end_lt (h : (n + 1) * pageSize < 2 ^ 64) : Fits n := by
  have hpow : (2 : Nat) ^ 64 = 2 ^ 52 * pageSize := by decide
  rw [hpow] at h
  exact Nat.lt_of_mul_lt_mul_right h

theorem Fits.offset_lt (h : Fits n) : n * pageSize < 2 ^ 64 :=
  lt_of_le_of_lt (Nat.mul_le_mul_right _ (Nat.le_succ n)) h.end_lt

theorem page_end (n : Nat) (page : Page) : n * pageSize + page.bytes.length = (n + 1) * pageSize := by
  rw [page.size_eq, Nat.add_mul, Nat.one_mul]

theorem bytes_putPage (h : Fits n) :
    (f.putPage n page).bytes = writeAt f.bytes (n * pageSize) page.bytes :=
  bytes_write f (by rw [page_end]; exact h.end_lt)

theorem page_bytes_ne_nil (page : Page) : page.bytes ≠ [] := by
  intro h
  have := page.size_eq
  simp [h] at this

theorem length_putPage (h : Fits n) :
    (f.putPage n page).bytes.length = max ((n + 1) * pageSize) f.bytes.length := by
  rw [bytes_putPage h, length_writeAt (page_bytes_ne_nil page), page_end]

theorem Holds.length_le (h : f.Holds n page) : (n + 1) * pageSize ≤ f.bytes.length := by
  have hlen := congrArg List.length h
  rw [page.size_eq, slice, List.length_take, List.length_drop] at hlen
  simp only [pageSize] at hlen ⊢
  omega

theorem holds_iff : f.Holds n page ↔ ∀ i < pageSize, f.bytes[n * pageSize + i]? = page.bytes[i]? := by
  constructor
  · intro h i hi
    rw [← h, getElem?_slice, if_pos hi]
  · intro h
    apply List.ext_getElem?
    intro i
    rw [getElem?_slice]
    by_cases hi : i < pageSize
    · rw [if_pos hi, h i hi]
    · rw [if_neg hi, List.getElem?_eq_none (by rw [page.size_eq]; omega)]

/-- A byte of the file after a page write. -/
theorem getElem?_putPage (h : Fits n) (i : Nat) :
    (f.putPage n page).bytes[i]? =
      if i < n * pageSize then (if i < f.bytes.length then f.bytes[i]? else some 0)
      else if i < (n + 1) * pageSize then page.bytes[i - n * pageSize]?
      else f.bytes[i]? := by
  have hlen := page_end n page
  have hle : n * pageSize ≤ (padTo (n * pageSize + page.bytes.length) f.bytes).length := by
    rw [length_padTo]
    omega
  rw [bytes_putPage h, writeAt_eq_splice (page_bytes_ne_nil page), getElem?_splice hle, hlen]
  by_cases hi : i < n * pageSize
  · rw [if_pos hi, if_pos hi, padTo]
    by_cases hin : i < f.bytes.length
    · rw [if_pos hin, List.getElem?_append_left hin]
    · rw [if_neg hin, List.getElem?_append_right (by omega), List.getElem?_replicate,
        if_pos (by simp only [pageSize] at hi ⊢; omega)]
  · rw [if_neg hi, if_neg hi]
    by_cases hin : i < (n + 1) * pageSize
    · rw [if_pos hin, if_pos hin]
    · rw [if_neg hin, if_neg hin, padTo]
      by_cases hlt : i < f.bytes.length
      · rw [List.getElem?_append_left hlt]
      · rw [List.getElem?_append_right (by omega), List.getElem?_replicate, if_neg (by omega),
          List.getElem?_eq_none (by omega)]

/-- The page just written is there. -/
theorem holds_putPage_self (h : Fits n) : (f.putPage n page).Holds n page := by
  rw [holds_iff]
  intro i hi
  rw [getElem?_putPage h, if_neg (by omega), if_pos (by simp only [pageSize] at hi ⊢; omega),
    Nat.add_sub_cancel_left]

theorem page_disjoint {i : Nat} (hne : m ≠ n) (hi : i < pageSize) :
    m * pageSize + i < n * pageSize ∨ (n + 1) * pageSize ≤ m * pageSize + i := by
  simp only [pageSize] at hi ⊢
  omega

/-- Another page stays as it is. -/
theorem Holds.putPage_of_ne {page' : Page} (hm : f.Holds m page') (h : Fits n) (hne : m ≠ n) :
    (f.putPage n page).Holds m page' := by
  have hlen := hm.length_le
  rw [holds_iff] at hm ⊢
  intro i hi
  rw [getElem?_putPage h, ← hm i hi]
  rcases page_disjoint hne hi with hlt | hge
  · rw [if_pos hlt, if_pos (by simp only [pageSize] at hi hlen ⊢; omega)]
  · rw [if_neg (by simp only [pageSize] at hge ⊢; omega), if_neg (by omega)]

theorem window_putPage_of_ne (h : Fits n) (hne : m ≠ n) :
    (f.putPage n page).window m = f.window m := by
  refine List.map_congr_left fun i hi => ?_
  have hi := List.mem_range.1 hi
  rw [getElem?_putPage h]
  rcases page_disjoint hne hi with hlt | hge
  · rw [if_pos hlt]
    by_cases hin : m * pageSize + i < f.bytes.length
    · rw [if_pos hin]
    · rw [if_neg hin, List.getElem?_eq_none (by omega)]
      rfl
  · rw [if_neg (by simp only [pageSize] at hge ⊢; omega), if_neg (by omega)]

/-- A page that lies in the file reads as its bytes. -/
theorem slice_eq_window (h : n * pageSize + pageSize ≤ f.bytes.length) :
    slice f.bytes (n * pageSize) pageSize = f.window n := by
  apply List.ext_getElem?
  intro i
  rw [getElem?_slice, ByteFile.window, List.getElem?_map]
  by_cases hi : i < pageSize
  · have hget : f.bytes[n * pageSize + i]? = some (f.bytes.get ⟨n * pageSize + i, by omega⟩) :=
      List.getElem?_eq_getElem _
    rw [if_pos hi, List.getElem?_range hi, Option.map_some, hget]
    rfl
  · rw [if_neg hi, List.getElem?_eq_none (by simpa using hi)]
    rfl

theorem Holds.window (h : f.Holds n page) : f.window n = page.bytes := by
  rw [holds_iff] at h
  apply List.ext_getElem?
  intro i
  rw [ByteFile.window, List.getElem?_map]
  by_cases hi : i < pageSize
  · have hpage : page.bytes[i]? = some (page.bytes.get ⟨i, by rw [page.size_eq]; exact hi⟩) :=
      List.getElem?_eq_getElem _
    rw [List.getElem?_range hi, Option.map_some, h i hi, hpage]
    rfl
  · rw [List.getElem?_eq_none (by simpa using hi), List.getElem?_eq_none (by rw [page.size_eq]; omega)]
    rfl

/-- Write the pages under their own numbers, one after the other. -/
def putPages (f : ByteFile) (pages : List Page) : ByteFile :=
  pages.foldl (fun f page => f.putPage page.number page) f

/-- The last of the pages with the number `m`. -/
def lastPage (m : Nat) (pages : List Page) : Option Page :=
  pages.reverse.find? fun page => page.number == m

theorem putPages_append (f : ByteFile) (xs ys : List Page) :
    f.putPages (xs ++ ys) = (f.putPages xs).putPages ys := List.foldl_append

theorem window_putPages_of_not_mem {pages : List Page} (hfits : ∀ page ∈ pages, Fits page.number)
    (hm : ∀ page ∈ pages, page.number ≠ m) : (f.putPages pages).window m = f.window m := by
  induction pages generalizing f with
  | nil => rfl
  | cons page pages ih =>
      rw [List.forall_mem_cons] at hfits hm
      rw [putPages, List.foldl_cons, ← putPages, ih hfits.2 hm.2,
        window_putPage_of_ne hfits.1 hm.1.symm]

theorem Holds.putPages_of_not_mem {pages : List Page} (h : f.Holds m page)
    (hfits : ∀ page ∈ pages, Fits page.number) (hm : ∀ page ∈ pages, page.number ≠ m) :
    (f.putPages pages).Holds m page := by
  induction pages generalizing f with
  | nil => exact h
  | cons page' pages ih =>
      rw [List.forall_mem_cons] at hfits hm
      exact ih (h.putPage_of_ne hfits.1 hm.1.symm) hfits.2 hm.2

/-- A page without an entry in the list. -/
theorem lastPage_eq_none {pages : List Page} :
    lastPage m pages = none ↔ ∀ page ∈ pages, page.number ≠ m := by
  simp [lastPage]

/-- The last page written under a number is the one that stays. -/
theorem holds_putPages {pages : List Page} (hfits : ∀ page ∈ pages, Fits page.number)
    (h : lastPage m pages = some page) : (f.putPages pages).Holds m page := by
  obtain ⟨hnumber, xs, ys, hsplit, hxs⟩ := List.find?_eq_some_iff_append.1 h
  rw [beq_iff_eq] at hnumber
  have hpages : pages = ys.reverse ++ (page :: xs.reverse) := by
    have := congrArg List.reverse hsplit
    simpa using this
  subst hnumber
  rw [hpages] at hfits
  rw [List.forall_mem_append, List.forall_mem_cons] at hfits
  rw [hpages, putPages_append, putPages, List.foldl_cons, ← putPages]
  refine (holds_putPage_self hfits.2.1).putPages_of_not_mem hfits.2.2 ?_
  intro page' hpage'
  simpa using hxs page' (List.mem_reverse.1 hpage')

theorem Holds.unique {page' : Page} (h : f.Holds n page) (h' : f.Holds n page') : page = page' :=
  Page.ext_bytes (h.symm.trans h')

end ByteFile

/-! ## Reading pages -/

section ReadPage

open ByteFile

variable {d : Disk} {pageFile : PageFile FileId} {pageId : PageId} {page : Page}

theorem Page.ofBuffer_bytes (page : Page) : Page.ofBuffer page.bytes = .ok page := by
  rw [Page.ofBuffer, dif_pos page.size_eq]

theorem fromBytes_of_validAs (h : page.ValidAs pageId) : page.fromBytes = .ok page := by
  obtain ⟨header, hvalid, -⟩ := h
  rw [Page.fromBytes, (Page.validate_eq_ok_iff page).2 ⟨header, hvalid⟩]
  rfl

theorem readPage_onlyReads (pageFile : PageFile FileId) (pageId : PageId) :
    Exec.Preserves OnlyReads (pageFile.readPage pageId) := by
  refine Exec.Preserves.bind (Exec.Preserves.liftM _) fun offset => ?_
  refine Exec.Preserves.bind (readExactAt_onlyReads _ _ _) fun bytes => ?_
  refine Exec.Preserves.bind (Exec.Preserves.liftM _) fun page => ?_
  refine Exec.Preserves.bind (Exec.Preserves.liftM _) fun page => ?_
  refine Exec.Preserves.bind (Exec.Preserves.liftM _) fun header => ?_
  exact Exec.Preserves.bind (Exec.Preserves.liftM _) fun _ => Exec.Preserves.pure page

/-- A page that the file holds is read back. -/
theorem readPage_of_holds (hfile : pageFile.file = .data) (hd : FaultFree d)
    (h : d.data.Holds pageId.val.toNat page) (hvalid : page.ValidAs pageId) :
    ∃ e, pageFile.readPage pageId d = (.ok page, e) ∧ SameFiles d e := by
  have hend : pageId.val.toNat * pageSize + pageSize ≤ d.data.bytes.length := by
    have := h.length_le
    rwa [Nat.add_mul, Nat.one_mul] at this
  have hoff : pageId.val.toNat * pageSize < 2 ^ 64 :=
    lt_of_le_of_lt ((Nat.le_add_right _ _).trans hend) d.data.length_lt
  have hnat : (UInt64.ofNat (pageId.val.toNat * pageSize)).toNat = pageId.val.toNat * pageSize := by
    rw [UInt64.toNat_ofNat', Nat.mod_eq_of_lt hoff]
  have hdata : d.file .data = d.data := rfl
  obtain ⟨e, hread, hsame⟩ : ∃ e, readExactAt .data
      (UInt64.ofNat (pageId.val.toNat * pageSize)) pageSize d = (.ok page.bytes, e) ∧
      SameFiles d e := by
    rw [readExactAt_of_faultFree hd .data (by rw [hnat, hdata]; exact hend), hnat, hdata, h]
    exact ⟨_, rfl, sameFiles_record d _⟩
  obtain ⟨header, hpage, hid⟩ := id hvalid
  have hheader := (Page.header_eq_ok_iff page header).2 hpage.toShape
  refine ⟨e, ?_, hsame⟩
  simp only [PageFile.readPage, pageOffset, if_pos hoff, hfile, vfs_readExactAt, hread,
    Page.ofBuffer_bytes, fromBytes_of_validAs hvalid, hheader, hid, Exec.bind_apply,
    Exec.liftM_apply, Exec.pure_apply, ne_eq, not_true_eq_false, failIf_of_not not_false]

theorem toNat_of_pageOffset {offset : UInt64} (h : pageOffset pageId = .ok offset) :
    offset.toNat = pageId.val.toNat * pageSize := by
  rw [pageOffset] at h
  split at h
  · cases h
    rw [UInt64.toNat_ofNat', Nat.mod_eq_of_lt (by assumption)]
  · cases h

/-- A page that is read is one that the file holds. -/
theorem holds_of_readPage {e : Disk} (hfile : pageFile.file = .data)
    (h : pageFile.readPage pageId d = (.ok page, e)) :
    d.data.Holds pageId.val.toNat page := by
  obtain ⟨offset, u₁, hoffset, h⟩ := Exec.bind_eq_ok.1 h
  obtain ⟨bytes, u₂, hread, h⟩ := Exec.bind_eq_ok.1 h
  obtain ⟨raw, u₃, hraw, h⟩ := Exec.bind_eq_ok.1 h
  obtain ⟨page', u₄, hpage, h⟩ := Exec.bind_eq_ok.1 h
  obtain ⟨header, u₅, -, h⟩ := Exec.bind_eq_ok.1 h
  obtain ⟨⟨⟩, u₆, -, h⟩ := Exec.bind_eq_ok.1 h
  cases h
  obtain ⟨hplace, rfl⟩ := Exec.liftM_eq_ok.1 hoffset
  obtain ⟨hraw, -⟩ := Exec.liftM_eq_ok.1 hraw
  obtain ⟨hpage, -⟩ := Exec.liftM_eq_ok.1 hpage
  obtain ⟨⟨⟩, -, hret⟩ := except_bind_eq_ok.1 hpage
  cases hret
  have hnat := toNat_of_pageOffset hplace
  have hbytes : bytes = page.bytes := by
    rw [Page.ofBuffer] at hraw
    split at hraw
    · cases hraw
      rfl
    · cases hraw
  rw [hfile, vfs_readExactAt, readExactAt] at hread
  rw [Holds, ← hbytes, ← hnat]
  split at hread
  · cases hread
  · split at hread
    · cases hread
      rfl
    · cases hread

/-- A page read from the file is valid and has the requested id. -/
theorem readPage_eq_ok {e : Disk} (h : pageFile.readPage pageId d = (.ok page, e)) :
    page.ValidAs pageId := by
  obtain ⟨offset, u₁, -, h⟩ := Exec.bind_eq_ok.1 h
  obtain ⟨bytes, u₂, -, h⟩ := Exec.bind_eq_ok.1 h
  obtain ⟨raw, u₃, -, h⟩ := Exec.bind_eq_ok.1 h
  obtain ⟨page', u₄, hpage, h⟩ := Exec.bind_eq_ok.1 h
  obtain ⟨header, u₅, hheader, h⟩ := Exec.bind_eq_ok.1 h
  obtain ⟨⟨⟩, u₆, hid, h⟩ := Exec.bind_eq_ok.1 h
  cases h
  obtain ⟨hbytes, -⟩ := Exec.liftM_eq_ok.1 hpage
  obtain ⟨hheader, -⟩ := Exec.liftM_eq_ok.1 hheader
  obtain ⟨hid, -⟩ := Exec.liftM_eq_ok.1 hid
  obtain ⟨⟨⟩, hvalidate, hret⟩ := except_bind_eq_ok.1 hbytes
  cases hret
  obtain ⟨header', hvalid⟩ := (Page.validate_eq_ok_iff _).1 hvalidate
  have hsame := hvalid.toShape.unique ((Page.header_eq_ok_iff _ _).1 hheader)
  exact ⟨header', hvalid, by rw [hsame]; exact not_not.1 (failIf_eq_ok.1 hid)⟩

end ReadPage

/-! ## Writing pages -/

section WritePage

open ByteFile

variable {d : Disk} {pageFile : PageFile FileId} {pageId : PageId} {page : Page}

/-- The write of a page as the VFS sees it. -/
def Page.writeEvent (page : Page) : Event :=
  ⟨.data, .write (UInt64.ofNat (page.number * pageSize)) page.bytes, true⟩

/-- The disk after a page has been written in its place. -/
def Disk.withPage (d : Disk) (page : Page) : Disk :=
  (d.setFile .data (d.data.putPage page.number page)).record page.writeEvent

@[simp] theorem data_withPage (d : Disk) (page : Page) :
    (d.withPage page).data = d.data.putPage page.number page := rfl

@[simp] theorem faults_withPage (d : Disk) (page : Page) : (d.withPage page).faults = d.faults := rfl

@[simp] theorem trace_withPage (d : Disk) (page : Page) :
    (d.withPage page).trace = d.trace ++ [page.writeEvent] := rfl

/-- A valid page under its own id: both ways of writing it are the same. -/
theorem writePageAt_of_validAs (pageFile : PageFile FileId) (h : page.ValidAs pageId) :
    pageFile.writePageAt pageId page = pageFile.writePage page := by
  obtain ⟨header, hvalid, rfl⟩ := h
  have hheader := (Page.header_eq_ok_iff page header).2 hvalid.toShape
  funext d
  simp only [PageFile.writePage, hheader, Exec.bind_apply, Exec.liftM_apply]

theorem writePage_of_faultFree (hfile : pageFile.file = .data) (hd : FaultFree d)
    (hpage : page.ValidAs pageId) (hfits : Fits page.number) :
    pageFile.writePage page d = (.ok (), d.withPage page) := by
  have hnat : (UInt64.ofNat (page.number * pageSize)).toNat = page.number * pageSize := by
    rw [UInt64.toNat_ofNat', Nat.mod_eq_of_lt hfits.offset_lt]
  have hend : page.number * pageSize + page.bytes.length < 2 ^ 64 := by
    rw [page_end]
    exact hfits.end_lt
  rw [pageFile.writePage_of_validAs hpage (by rw [← hpage.number]; exact hfits.offset_lt), hfile,
    vfs_writeAllAt, ← hpage.number]
  simp only [writeAllAt, hd.nextFault, hnat, if_pos hend]
  rfl

end WritePage

end Rdbms
