import Rdbms.Vfs.Pages

/-!
# The page file as a map from page ids to pages

What a page file is for: it maps page ids to pages. The map after a sequence of
writes is read off the writes that succeeded. `Represents f pages` says that the
file holds every page of the map and zeros everywhere else, where a missing tail
counts as zeros; a page of zeros is never valid, so reading it fails.
-/

namespace Rdbms

open Library Disk ByteFile

/-- A call that writes a page: under its own id or under a given one. -/
inductive PageWrite where
  | writePage (page : Page)
  | writePageAt (pageId : PageId) (page : Page)

namespace PageWrite

def page : PageWrite → Page
  | writePage page => page
  | writePageAt _ page => page

/-- The page id that the call is to write. -/
def target : PageWrite → PageId
  | writePage page => page.id
  | writePageAt pageId _ => pageId

def run {W F : Type} [VfsFile W F] (pageFile : PageFile F) : PageWrite → Db W Unit
  | writePage page => pageFile.writePage page
  | writePageAt pageId page => pageFile.writePageAt pageId page

end PageWrite

/-- The page file over the data file of the disk. -/
def dataFile : PageFile FileId := ⟨.data⟩

/-- Make the calls one after the other, whether they succeed or not. -/
def runWrites {W F : Type} [VfsFile W F] (pageFile : PageFile F) :
    List PageWrite → Db W (List (DbResult Unit))
  | [] => return []
  | write :: writes => do
      let result ← Exec.attempt (write.run pageFile)
      let results ← runWrites pageFile writes
      return result :: results

/-- The page that the last successful write of `pageId` was given. -/
def lastWritten (pageId : PageId) (done : List (PageWrite × DbResult Unit)) : Option Page :=
  (done.reverse.find? fun x => x.1.target = pageId ∧ x.2.isOk).map fun x => x.1.page

/-- The file holds the pages of the map, and zeros everywhere else. -/
structure Represents (f : ByteFile) (pages : PageId → Option Page) : Prop where
  valid : ∀ {pageId page}, pages pageId = some page → page.ValidAs pageId
  holds : ∀ {pageId page}, pages pageId = some page → f.Holds pageId.val.toNat page
  zeros : ∀ {pageId}, pages pageId = none →
    f.window pageId.val.toNat = List.replicate pageSize 0

section One

variable {d : Disk} {f : ByteFile} {pages : PageId → Option Page} {pageId : PageId} {page : Page}

theorem lastWritten_append (done : List (PageWrite × DbResult Unit)) (write : PageWrite)
    (result : DbResult Unit) :
    lastWritten pageId (done ++ [(write, result)]) =
      if write.target = pageId ∧ result.isOk then some write.page else lastWritten pageId done := by
  rw [lastWritten, List.reverse_append, List.reverse_singleton, List.singleton_append,
    List.find?_cons]
  by_cases h : write.target = pageId ∧ result.isOk
  · simp only [h, and_self, decide_true, if_true, Option.map_some]
  · simp only [h, decide_false, if_false]
    rfl

/-! ## One write -/

/-- A page that is not valid under the target is refused. -/
theorem writePageAt_of_not_validAs (d : Disk) (hpage : ¬ page.ValidAs pageId) :
    ∃ stop, dataFile.writePageAt pageId page d = (.error stop, d) := by
  cases hvalidate : page.validate with
  | error stop =>
      exact ⟨stop, by simp only [PageFile.writePageAt, hvalidate, Exec.bind_apply, Exec.liftM_apply]⟩
  | ok u =>
      obtain ⟨header, hvalid⟩ := (Page.validate_eq_ok_iff page).1 hvalidate
      have hheader := (Page.header_eq_ok_iff page header).2 hvalid.toShape
      have hne : header.pageId ≠ pageId := fun h => hpage ⟨header, hvalid, h⟩
      exact ⟨_, by simp only [PageFile.writePageAt, hvalidate, hheader, Exec.bind_apply,
        Exec.liftM_apply, failIf_of hne]; rfl⟩

/-- Writing under its own id is refused in the same way. -/
theorem writePage_of_not_validAs (d : Disk) (hpage : ¬ page.ValidAs page.id) :
    ∃ stop, dataFile.writePage page d = (.error stop, d) := by
  cases hheader : page.header with
  | error stop =>
      exact ⟨stop, by simp only [PageFile.writePage, hheader, Exec.bind_apply, Exec.liftM_apply]⟩
  | ok header =>
      have hid : header.pageId = page.id :=
        congrArg PageId.mk ((Page.header_eq_ok_iff page header).1 hheader).pageId.symm
      obtain ⟨stop, hrefused⟩ := writePageAt_of_not_validAs d hpage
      refine ⟨stop, ?_⟩
      rw [← hrefused]
      simp only [PageFile.writePage, hheader, Exec.bind_apply, Exec.liftM_apply, hid]

/-- What a call does: it puts a valid page in its place, or is refused and leaves
the disk alone. -/
theorem PageWrite.run_cases (hd : FaultFree d) (write : PageWrite)
    (hfits : Fits write.target.val.toNat) :
    (write.page.ValidAs write.target ∧ write.run dataFile d = (.ok (), d.withPage write.page)) ∨
    (¬ write.page.ValidAs write.target ∧ ∃ stop, write.run dataFile d = (.error stop, d)) := by
  by_cases hpage : write.page.ValidAs write.target
  · have hfits' : Fits write.page.number := by rwa [hpage.number]
    refine Or.inl ⟨hpage, ?_⟩
    cases write with
    | writePage page => exact writePage_of_faultFree rfl hd hpage hfits'
    | writePageAt pageId page =>
        have hsame : dataFile.writePageAt pageId page = dataFile.writePage page :=
          writePageAt_of_validAs dataFile hpage
        rw [PageWrite.run, hsame]
        exact writePage_of_faultFree rfl hd hpage hfits'
  · refine Or.inr ⟨hpage, ?_⟩
    cases write with
    | writePage page => exact writePage_of_not_validAs d hpage
    | writePageAt pageId page => exact writePageAt_of_not_validAs d hpage

end One

/-! ## What the file is after a write -/

section Represents

variable {d : Disk} {f : ByteFile} {pages : PageId → Option Page} {pageId : PageId} {page : Page}

theorem represents_empty (h : f.bytes = []) : Represents f fun _ => none where
  valid := nofun
  holds := nofun
  zeros := by
    intro pageId _
    simp [ByteFile.window, h]

theorem Represents.putPage (h : Represents f pages) (hpage : page.ValidAs pageId)
    (hfits : Fits pageId.val.toNat) :
    Represents (f.putPage pageId.val.toNat page) (Function.update pages pageId (some page)) where
  valid := by
    intro other page' hsome
    by_cases heq : other = pageId
    · subst heq
      rw [Function.update_self, Option.some.injEq] at hsome
      exact hsome ▸ hpage
    · rw [Function.update_of_ne heq] at hsome
      exact h.valid hsome
  holds := by
    intro other page' hsome
    by_cases heq : other = pageId
    · subst heq
      rw [Function.update_self, Option.some.injEq] at hsome
      exact hsome ▸ holds_putPage_self hfits
    · rw [Function.update_of_ne heq] at hsome
      exact (h.holds hsome).putPage_of_ne hfits (PageId.toNat_ne heq)
  zeros := by
    intro other hnone
    have heq : other ≠ pageId := by
      rintro rfl
      rw [Function.update_self] at hnone
      cases hnone
    rw [Function.update_of_ne heq] at hnone
    rw [window_putPage_of_ne hfits (PageId.toNat_ne heq), h.zeros hnone]

/-- A page of zeros is not valid. -/
theorem header_zeroed : Page.zeroed.header = DbResult.corruption "invalid page magic" := by
  have hwindow : Page.zeroed.window Page.offMagic 4 = List.replicate 4 0 := by
    rw [Page.window, slice, Page.zeroed, List.drop_replicate, List.take_replicate]
    rfl
  have hread : readU32 Page.zeroed.bytes Page.offMagic = .ok 0 := by
    rw [Page.readU32_eq _ (by decide), Page.u32At, hwindow]
    rfl
  rw [Page.header, hread]
  rfl

/-- What a file with an unwritten page gives when that page is read. -/
theorem readPage_of_zeros (hd : FaultFree d)
    (hzeros : d.data.window pageId.val.toNat = List.replicate pageSize 0) :
    ∃ error, (dataFile.readPage pageId d).1 = .error (.error error) := by
  by_cases hoff : pageId.val.toNat * pageSize < 2 ^ 64
  case neg =>
    refine ⟨.user "page offset overflow", ?_⟩
    simp only [PageFile.readPage, pageOffset, if_neg hoff, Exec.bind_apply, Exec.liftM_apply]
  have hnat : (UInt64.ofNat (pageId.val.toNat * pageSize)).toNat = pageId.val.toNat * pageSize := by
    rw [UInt64.toNat_ofNat', Nat.mod_eq_of_lt hoff]
  by_cases hend : pageId.val.toNat * pageSize + pageSize ≤ d.data.bytes.length
  · obtain ⟨e, hread⟩ : ∃ e, readExactAt .data
        (UInt64.ofNat (pageId.val.toNat * pageSize)) pageSize d = (.ok Page.zeroed.bytes, e) := by
      have hslice : slice d.data.bytes (pageId.val.toNat * pageSize) pageSize =
          Page.zeroed.bytes := by
        rw [slice_eq_window hend, hzeros]
        rfl
      rw [readExactAt_of_faultFree hd .data (by rw [hnat]; exact hend), hnat]
      exact ⟨_, by rw [← hslice]; rfl⟩
    refine ⟨.corruption "invalid page magic", ?_⟩
    have hfrom : Page.zeroed.fromBytes = DbResult.corruption "invalid page magic" := by
      rw [Page.fromBytes, Page.validate, header_zeroed]
      rfl
    simp only [PageFile.readPage, pageOffset, if_pos hoff, dataFile, vfs_readExactAt, hread,
      Page.ofBuffer_bytes, hfrom, Exec.bind_apply, Exec.liftM_apply]
  · have hshort : ¬ (pageSize = 0 ∨
        (UInt64.ofNat (pageId.val.toNat * pageSize)).toNat + pageSize ≤
          (d.file .data).bytes.length) := by
      rw [hnat]
      rintro (hzero | hle)
      · cases hzero
      · exact hend hle
    refine ⟨.io .unexpectedEof, ?_⟩
    simp only [PageFile.readPage, pageOffset, if_pos hoff, dataFile, vfs_readExactAt,
      readExactAt, hd.nextFault, if_neg hshort, Exec.bind_apply, Exec.liftM_apply]

/-- Reading a page gives the page of the map, or an error when there is none. -/
theorem Represents.readPage (h : Represents d.data pages) (hd : FaultFree d) (pageId : PageId) :
    match pages pageId with
    | some page => (dataFile.readPage pageId d).1 = .ok page
    | none => ∃ error, (dataFile.readPage pageId d).1 = .error (.error error) := by
  cases hpage : pages pageId with
  | some page =>
      obtain ⟨e, hread, -⟩ := readPage_of_holds rfl hd (h.holds hpage) (h.valid hpage)
      exact congrArg Prod.fst hread
  | none => exact readPage_of_zeros hd (h.zeros hpage)

end Represents

/-! ## Runs -/

section Run

variable {d e : Disk}

/-- What has to hold after some of the calls for the rest to go on. -/
structure WritesDone (done : List (PageWrite × DbResult Unit)) (d : Disk) : Prop where
  faultFree : FaultFree d
  represents : Represents d.data fun pageId => lastWritten pageId done

theorem WritesDone.write {done : List (PageWrite × DbResult Unit)} (h : WritesDone done d)
    (write : PageWrite) (hfits : Fits write.target.val.toNat) :
    WritesDone (done ++ [(write, (write.run dataFile d).1)]) (write.run dataFile d).2 := by
  rcases write.run_cases h.faultFree hfits with
    ⟨hpage, hrun⟩ | ⟨-, stop, hrun⟩
  · rw [hrun]
    refine ⟨h.faultFree, ?_⟩
    have hpages : (fun pageId => lastWritten pageId (done ++ [(write, .ok ())])) =
        Function.update (fun pageId => lastWritten pageId done) write.target
          (some write.page) := by
      funext pageId
      rw [lastWritten_append, Function.update_apply]
      simp only [Except.isOk, Except.toBool, and_true, eq_comm]
    rw [hpages, data_withPage, hpage.number]
    exact h.represents.putPage hpage hfits
  · rw [hrun]
    refine ⟨h.faultFree, ?_⟩
    have hpages : (fun pageId => lastWritten pageId (done ++ [(write, .error stop)])) =
        fun pageId => lastWritten pageId done := by
      funext pageId
      rw [lastWritten_append]
      simp only [Except.isOk, Except.toBool, Bool.false_eq_true, and_false, if_false]
    rw [hpages]
    exact h.represents

theorem WritesDone.run {writes : List PageWrite}
    (hids : ∀ write ∈ writes, Fits write.target.val.toNat) :
    ∀ {done d}, WritesDone done d → ∃ results e, runWrites dataFile writes d = (.ok results, e) ∧
      results.length = writes.length ∧ WritesDone (done ++ writes.zip results) e := by
  induction writes with
  | nil =>
      intro done d h
      refine ⟨[], d, rfl, rfl, ?_⟩
      rwa [List.zip_nil_left, List.append_nil]
  | cons write writes ih =>
      intro done d h
      rw [List.forall_mem_cons] at hids
      obtain ⟨results, e, hrun, hlen, hdone⟩ := ih hids.2 (h.write write hids.1)
      refine ⟨(write.run dataFile d).1 :: results, e, ?_, ?_, ?_⟩
      · rw [runWrites, Exec.bind_of_ok (Exec.attempt_apply _ _), Exec.bind_of_ok hrun]
        rfl
      · rw [List.length_cons, List.length_cons, hlen]
      · rwa [List.append_assoc] at hdone

theorem WritesDone.readPage_eq_ok {done : List (PageWrite × DbResult Unit)}
    (h : WritesDone done d) (pageId : PageId) (page : Page) :
    (dataFile.readPage pageId d).1 = .ok page ↔ lastWritten pageId done = some page := by
  have hread := h.represents.readPage h.faultFree pageId
  cases hlast : lastWritten pageId done with
  | none =>
      rw [hlast] at hread
      obtain ⟨error, hread⟩ := hread
      rw [hread]
      exact ⟨nofun, nofun⟩
  | some last =>
      rw [hlast] at hread
      rw [show (dataFile.readPage pageId d).1 = .ok last from hread, Except.ok.injEq,
        Option.some.injEq]

end Run

theorem fits_of_lt {n : Nat} (h : n < 2 ^ 51) : Fits n := by
  rw [Fits]
  omega

/-- A page file over an empty file, after any sequence of writes: reading gives the
page last written under the id, and an error where no write has succeeded. One more
write changes what its own id reads and no other, and nothing at all when it is
refused. -/
theorem page_file_refines_map {d : Disk} {writes : List PageWrite} (hd : FaultFree d)
    (hempty : d.data.bytes = []) (hids : ∀ write ∈ writes, write.target.val.toNat < 2 ^ 51) :
    ∃ results e, runWrites dataFile writes d = (.ok results, e) ∧
      results.length = writes.length ∧
      (∀ pageId page, (dataFile.readPage pageId e).1 = .ok page ↔
        lastWritten pageId (writes.zip results) = some page) ∧
      (∀ pageId, lastWritten pageId (writes.zip results) = none →
        ∃ error, (dataFile.readPage pageId e).1 = .error (.error error)) ∧
      ∀ write : PageWrite, write.target.val.toNat < 2 ^ 51 →
        (∀ pageId, pageId ≠ write.target → ∀ page,
          (dataFile.readPage pageId (write.run dataFile e).2).1 = .ok page ↔
            (dataFile.readPage pageId e).1 = .ok page) ∧
        ((write.run dataFile e).1 = .ok () ↔ write.page.ValidAs write.target) ∧
        (∀ stop, (write.run dataFile e).1 = .error stop →
          (write.run dataFile e).2.data = e.data) := by
  have hnone : (fun pageId => lastWritten pageId []) = fun _ => none := rfl
  have hstart : WritesDone [] d := ⟨hd, hnone ▸ represents_empty hempty⟩
  obtain ⟨results, e, hrun, hlen, hdone⟩ :=
    hstart.run fun write hwrite => fits_of_lt (hids write hwrite)
  rw [List.nil_append] at hdone
  refine ⟨results, e, hrun, hlen, hdone.readPage_eq_ok, ?_, ?_⟩
  · intro pageId hlast
    have hread := hdone.represents.readPage hdone.faultFree pageId
    rw [hlast] at hread
    exact hread
  · intro write hwrite
    refine ⟨?_, ?_⟩
    · intro pageId hne page
      rw [(hdone.write write (fits_of_lt hwrite)).readPage_eq_ok, hdone.readPage_eq_ok,
        lastWritten_append, if_neg fun h => hne h.1.symm]
    · rcases write.run_cases hdone.faultFree (fits_of_lt hwrite) with
        ⟨hpage, hok⟩ | ⟨hpage, stop, hrefused⟩
      · rw [hok]
        exact ⟨⟨fun _ => hpage, fun _ => rfl⟩, nofun⟩
      · rw [hrefused]
        exact ⟨⟨nofun, fun h => absurd h hpage⟩, fun _ _ => rfl⟩

/-- One page written under its own id and read back; its neighbour stays unwritten. -/
theorem page_file_one_write :
    ∃ e, (dataFile.readPage ⟨1⟩ e).1 = .ok (Page.new ⟨1⟩ .heap) ∧
      ∃ error, (dataFile.readPage ⟨0⟩ e).1 = .error (.error error) := by
  have hvalid : (Page.new ⟨1⟩ .heap).ValidAs ⟨1⟩ := ⟨_, Page.new_valid ⟨1⟩ .heap, rfl⟩
  have htarget : (PageWrite.writePage (Page.new ⟨1⟩ .heap)).target = ⟨1⟩ := hvalid.id
  have hsmall : ∀ write ∈ [PageWrite.writePage (Page.new ⟨1⟩ .heap)],
      write.target.val.toNat < 2 ^ 51 := by
    intro write hmem
    rw [List.mem_singleton.1 hmem, htarget]
    decide
  obtain ⟨results, e, hrun, -, hread, hunwritten, -⟩ :=
    page_file_refines_map fresh_faultFree rfl hsmall
  have hresults : results = [.ok ()] := by
    rw [runWrites, Exec.bind_of_ok (Exec.attempt_apply _ _)] at hrun
    rcases (PageWrite.writePage (Page.new ⟨1⟩ .heap)).run_cases fresh_faultFree
      (fits_of_lt (hsmall _ (List.mem_singleton_self _))) with ⟨-, hok⟩ | ⟨hnot, -⟩
    · rw [hok] at hrun
      cases hrun
      rfl
    · rw [htarget] at hnot
      exact absurd hvalid hnot
  have hlast (pageId : PageId) :
      lastWritten pageId ([PageWrite.writePage (Page.new ⟨1⟩ .heap)].zip results) =
        if ⟨1⟩ = pageId then some (Page.new ⟨1⟩ .heap) else none := by
    rw [hresults]
    have happend := @lastWritten_append pageId [] (.writePage (Page.new ⟨1⟩ .heap)) (.ok ())
    rw [htarget] at happend
    simp only [Except.isOk, Except.toBool, and_true] at happend
    exact happend
  exact ⟨e, (hread _ _).2 (hlast _), hunwritten _ (hlast _)⟩

end Rdbms
