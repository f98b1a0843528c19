import Rdbms.Page.Insert

/-!
# The VFS boundary and the page file

A file is reached through a handle `F`; what the handle refers to lives in a
world `W` outside the engine, so an operation on a file is a computation over
`W`. The page file stores page `n` at the byte offset `n * 4096` and validates
every page it writes and reads.
-/

namespace Rdbms

open Library

/-- Random-access file contract of the storage layer. -/
class VfsFile (W : outParam Type) (F : Type) where
  readExactAt : F → UInt64 → Nat → Db W (List UInt8)
  writeAllAt : F → UInt64 → List UInt8 → Db W Unit
  len : F → Db W UInt64
  syncData : F → Db W Unit

/-- Disk-backed fixed-size page file. -/
structure PageFile (F : Type) where
  file : F

def pageOffset (pageId : PageId) : DbResult UInt64 :=
  if pageId.val.toNat * pageSize < 2 ^ 64 then .ok (UInt64.ofNat (pageId.val.toNat * pageSize))
  else DbResult.user "page offset overflow"

/-- The page buffer filled by a read of one page. -/
def Page.ofBuffer (bytes : List UInt8) : DbResult Page :=
  if h : bytes.length = pageSize then .ok ⟨bytes, h⟩ else DbResult.panicked

namespace PageFile

variable {W F : Type} [VfsFile W F]

/-- Write a validated page at the given page id, which must match its header. -/
def writePageAt (pageFile : PageFile F) (pageId : PageId) (page : Page) : Db W Unit := do
  page.validate
  let header ← page.header
  let target := pageId.val
  let inHeader := header.pageId.val
  failIf (header.pageId ≠ pageId) (DbResult.user
    s!"page id mismatch on write: target={target}, page_header={inHeader}")
  let offset ← pageOffset pageId
  VfsFile.writeAllAt pageFile.file offset page.bytes

/-- Write a validated page at the offset implied by its own page id. -/
def writePage (pageFile : PageFile F) (page : Page) : Db W Unit := do
  let header ← page.header
  pageFile.writePageAt header.pageId page

/-- Read and validate a page by physical page id. -/
def readPage (pageFile : PageFile F) (pageId : PageId) : Db W Page := do
  let offset ← pageOffset pageId
  let bytes ← VfsFile.readExactAt pageFile.file offset pageSize
  let page ← Page.ofBuffer bytes
  let page ← page.fromBytes
  let header ← page.header
  let requested := pageId.val
  let inHeader := header.pageId.val
  failIf (header.pageId ≠ pageId) (DbResult.corruption
    s!"page id mismatch on read: requested={requested}, page_header={inHeader}")
  return page

def len (pageFile : PageFile F) : Db W UInt64 := VfsFile.len pageFile.file

def syncData (pageFile : PageFile F) : Db W Unit := VfsFile.syncData pageFile.file

/-! ## What a page write hands to the file -/

/-- A valid page is written at the offset of its own id. -/
theorem writePage_of_validAs (pageFile : PageFile F) {page : Page} {pageId : PageId}
    (hpage : page.ValidAs pageId) (hoff : pageId.val.toNat * pageSize < 2 ^ 64) :
    pageFile.writePage page = VfsFile.writeAllAt pageFile.file
      (UInt64.ofNat (pageId.val.toNat * pageSize)) page.bytes := by
  obtain ⟨header, hvalid, rfl⟩ := hpage
  have hheader := (Page.header_eq_ok_iff page header).2 hvalid.toShape
  have hvalidate := (Page.validate_eq_ok_iff page).2 ⟨header, hvalid⟩
  funext w
  simp only [writePage, writePageAt, hheader, hvalidate, pageOffset, if_pos hoff, Exec.bind_apply,
    Exec.liftM_apply, ne_eq, not_true_eq_false, failIf_of_not not_false]

/-- An offset that does not fit is refused before the file is touched. -/
theorem writePage_of_overflow (pageFile : PageFile F) {page : Page} {pageId : PageId}
    (hpage : page.ValidAs pageId) (hoff : ¬ pageId.val.toNat * pageSize < 2 ^ 64) (w : W) :
    pageFile.writePage page w = (DbResult.user "page offset overflow", w) := by
  obtain ⟨header, hvalid, rfl⟩ := hpage
  have hheader := (Page.header_eq_ok_iff page header).2 hvalid.toShape
  have hvalidate := (Page.validate_eq_ok_iff page).2 ⟨header, hvalid⟩
  simp only [writePage, writePageAt, hheader, hvalidate, pageOffset, if_neg hoff, Exec.bind_apply,
    Exec.liftM_apply, ne_eq, not_true_eq_false, failIf_of_not not_false]

/-- A page that is not valid is refused before the file is touched. -/
theorem writePage_cases (pageFile : PageFile F) (page : Page) :
    (∃ stop, ∀ w : W, pageFile.writePage page w = (.error stop, w)) ∨
      ∃ pageId, page.ValidAs pageId ∧ pageId.val.toNat * pageSize < 2 ^ 64 := by
  cases hvalidate : page.validate with
  | error stop =>
      left
      cases hheader : page.header with
      | error stop' =>
          exact ⟨stop', fun w => by
            simp only [writePage, hheader, Exec.bind_apply, Exec.liftM_apply]⟩
      | ok header =>
          exact ⟨stop, fun w => by
            simp only [writePage, writePageAt, hheader, hvalidate, Exec.bind_apply,
              Exec.liftM_apply]⟩
  | ok u =>
      obtain ⟨header, hvalid⟩ := (Page.validate_eq_ok_iff page).1 hvalidate
      by_cases hoff : header.pageId.val.toNat * pageSize < 2 ^ 64
      · exact Or.inr ⟨header.pageId, ⟨header, hvalid, rfl⟩, hoff⟩
      · exact Or.inl ⟨_, pageFile.writePage_of_overflow ⟨header, hvalid, rfl⟩ hoff⟩

end PageFile

end Rdbms
