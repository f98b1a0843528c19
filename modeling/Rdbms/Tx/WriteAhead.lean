import Rdbms.Tx.Protocol

/-!
# Write-ahead logging

Whatever faults a session meets, a page reaches the data file only inside a
commit, and only after the commit has appended the image of that page and its own
marker and has synced the log. The statement is about the trace of operations:
it holds of every write to the data file after the session was opened.
-/

namespace Rdbms

open Library Disk

namespace Disk

/-- The trace has grown by events with a property. -/
def TraceGrows (P : Event → Prop) (d e : Disk) : Prop :=
  ∃ events, e.trace = d.trace ++ events ∧ ∀ ev ∈ events, P ev

variable {P Q : Event → Prop}

theorem TraceGrows.refl (d : Disk) : TraceGrows P d d := ⟨[], by simp, by simp⟩

theorem TraceGrows.trans {c d e : Disk} (h : TraceGrows P c d) (h' : TraceGrows P d e) :
    TraceGrows P c e := by
  obtain ⟨xs, hxs, hall⟩ := h
  obtain ⟨ys, hys, hall'⟩ := h'
  refine ⟨xs ++ ys, by rw [hys, hxs, List.append_assoc], ?_⟩
  intro ev hev
  rcases List.mem_append.1 hev with hev | hev
  · exact hall ev hev
  · exact hall' ev hev

instance : IsPreorder Disk (TraceGrows P) where
  refl := TraceGrows.refl
  trans _ _ _ := TraceGrows.trans

theorem TraceGrows.imp {d e : Disk} (h : TraceGrows P d e) (hPQ : ∀ ev, P ev → Q ev) :
    TraceGrows Q d e := by
  obtain ⟨events, htrace, hall⟩ := h
  exact ⟨events, htrace, fun ev hev => hPQ ev (hall ev hev)⟩

theorem OnlyReads.grows {d e : Disk} (h : OnlyReads d e) :
    TraceGrows (fun ev => VfsOp.isRead ev.op) d e := h.trace

/-- A write is one event that tells whether it succeeded. -/
theorem trace_writeAllAt (fileId : FileId) (offset : UInt64) (data : List UInt8) (d : Disk) :
    (∃ e, writeAllAt fileId offset data d = (.ok (), e) ∧
      e.trace = d.trace ++ [⟨fileId, .write offset data, true⟩]) ∨
    (∃ stop e, writeAllAt fileId offset data d = (.error stop, e) ∧
      e.trace = d.trace ++ [⟨fileId, .write offset data, false⟩]) := by
  unfold writeAllAt
  split
  · exact Or.inr ⟨_, _, rfl, by rw [trace_record, trace_setFile]⟩
  · split
    · exact Or.inl ⟨_, rfl, by rw [trace_record, trace_setFile]⟩
    · exact Or.inr ⟨_, _, rfl, by rw [trace_record]⟩

/-- A sync is one event that tells whether it succeeded. -/
theorem trace_syncData (fileId : FileId) (d : Disk) :
    (∃ e, syncData fileId d = (.ok (), e) ∧ e.trace = d.trace ++ [⟨fileId, .sync, true⟩]) ∨
    (∃ stop e, syncData fileId d = (.error stop, e) ∧
      e.trace = d.trace ++ [⟨fileId, .sync, false⟩]) := by
  unfold syncData
  split
  · exact Or.inr ⟨_, _, rfl, by rw [trace_record]⟩
  · refine Or.inl ⟨_, rfl, ?_⟩
    cases fileId with
    | data => rfl
    | wal => rfl

theorem writeAllAt_grows {fileId : FileId} {offset : UInt64} {data : List UInt8}
    (h : ∀ ok, P ⟨fileId, .write offset data, ok⟩) :
    Exec.Preserves (TraceGrows P) (writeAllAt fileId offset data) := by
  intro d
  rcases trace_writeAllAt fileId offset data d with ⟨e, he, htrace⟩ | ⟨stop, e, he, htrace⟩
  · rw [he]
    exact ⟨_, htrace, by simpa using h true⟩
  · rw [he]
    exact ⟨_, htrace, by simpa using h false⟩

theorem syncData_grows {fileId : FileId} (h : ∀ ok, P ⟨fileId, .sync, ok⟩) :
    Exec.Preserves (TraceGrows P) (syncData fileId) := by
  intro d
  rcases trace_syncData fileId d with ⟨e, he, htrace⟩ | ⟨stop, e, he, htrace⟩
  · rw [he]
    exact ⟨_, htrace, by simpa using h true⟩
  · rw [he]
    exact ⟨_, htrace, by simpa using h false⟩

end Disk

/-! ## The log part -/

/-- The event of a successful append of a record of this kind. -/
def Appended (kind : WalRecordKind) (ev : Event) : Prop :=
  ∃ lsn : Lsn, ev = ⟨.wal, .write lsn.val (WalRecord.bytes ⟨lsn, kind⟩), true⟩

/-- The writer stays on its file, and only that file is worked on. -/
structure Logging (s t : WalWriter FileId × Disk) : Prop where
  file : t.1.file = s.1.file
  grows : TraceGrows (fun ev => ev.file = s.1.file) s.2 t.2

instance : IsPreorder (WalWriter FileId × Disk) Logging where
  refl s := ⟨rfl, TraceGrows.refl s.2⟩
  trans _ _ _ h h' := ⟨h'.file.trans h.file,
    h.grows.trans (by rw [h.file.symm]; exact h'.grows)⟩

/-- An append is one event, or none when the allocator is used up. -/
theorem append_trace (kind : WalRecordKind) (s : WalWriter FileId × Disk) :
    Logging s (WalWriter.append kind s).2 ∧
      ∀ lsn t, WalWriter.append kind s = (.ok lsn, t) →
        t.2.trace = s.2.trace ++
          [⟨s.1.file, .write lsn.val (WalRecord.bytes ⟨lsn, kind⟩), true⟩] := by
  obtain ⟨w, d⟩ := s
  by_cases hroom : w.allocator.next.val.toNat + kind.encodedLen < 2 ^ 64
  · rw [append_eq hroom]
    rcases trace_writeAllAt w.file w.allocator.next.val
      (WalRecord.bytes ⟨w.allocator.next, kind⟩) d with ⟨e, he, htrace⟩ | ⟨stop, e, he, htrace⟩
    · rw [he]
      refine ⟨⟨rfl, _, htrace, by simp⟩, ?_⟩
      intro lsn t h
      cases h
      exact htrace
    · rw [he]
      refine ⟨⟨rfl, _, htrace, by simp⟩, ?_⟩
      intro lsn t h
      cases h
  · rw [append_of_full hroom]
    refine ⟨refl_of Logging (w, d), ?_⟩
    intro lsn t h
    cases h

theorem append_logging (kind : WalRecordKind) :
    Exec.Preserves Logging (WalWriter.append kind : Db (WalWriter FileId × Disk) _) :=
  fun s => (append_trace kind s).1

theorem append_appended {kind : WalRecordKind} {s t : WalWriter FileId × Disk} {lsn : Lsn}
    (hs : s.1.file = .wal) (h : WalWriter.append kind s = (.ok lsn, t)) :
    t.1.file = .wal ∧ ∃ ev, Appended kind ev ∧ t.2.trace = s.2.trace ++ [ev] := by
  obtain ⟨hlog, htrace⟩ := append_trace kind s
  rw [h] at hlog
  refine ⟨hlog.file.trans hs, _, ⟨lsn, ?_⟩, htrace lsn t h⟩
  rw [hs]

theorem syncWal_logging : Exec.Preserves Logging (do
    let (writer, _) ← Exec.get
    Exec.onRight writer.syncData : Db (WalWriter FileId × Disk) Unit) :=
  fun s => ⟨rfl, syncData_grows (fun _ => rfl) s.2⟩

theorem logImages_logging (txId : TxId) (pages : List Page) :
    Exec.Preserves Logging (Transaction.logImages txId pages :
      Db (WalWriter FileId × Disk) Unit) := by
  refine Exec.Preserves.forM fun page _ => ?_
  refine Exec.Preserves.bind (Exec.Preserves.liftM _) fun kind => ?_
  exact Exec.Preserves.bind (append_logging kind) fun _ => Exec.Preserves.pure _

theorem logCommit_logging (txId : TxId) (pages : List Page) :
    Exec.Preserves Logging (Transaction.logCommit txId pages :
      Db (WalWriter FileId × Disk) Unit) := by
  refine Exec.Preserves.bind (logImages_logging txId pages) fun _ => ?_
  exact Exec.Preserves.bind (append_logging _) fun _ => syncWal_logging

theorem logAbort_logging (txId : TxId) :
    Exec.Preserves Logging (Transaction.logAbort txId : Db (WalWriter FileId × Disk) Unit) :=
  Exec.Preserves.bind (append_logging _) fun _ => syncWal_logging

/-- The kind of record that a valid page is logged as. -/
theorem ofPage_eq_ok {txId : TxId} {page : Page} {kind : WalRecordKind}
    (h : WalRecordKind.ofPage txId page = .ok kind) :
    ∃ pageId, page.ValidAs pageId ∧ kind = .pageImage txId pageId page := by
  obtain ⟨⟨⟩, hvalidate, h⟩ := except_bind_eq_ok.1 h
  obtain ⟨header, hheader, h⟩ := except_bind_eq_ok.1 h
  cases h
  obtain ⟨header', hvalid⟩ := (Page.validate_eq_ok_iff page).1 hvalidate
  have hsame := hvalid.toShape.unique ((Page.header_eq_ok_iff _ _).1 hheader)
  exact ⟨header.pageId, ⟨header', hvalid, by rw [hsame]⟩, rfl⟩

/-- A page stands in the log under its own id. -/
def ImageLogged (txId : TxId) (page : Page) (ev : Event) : Prop :=
  ∃ pageId, page.ValidAs pageId ∧ Appended (.pageImage txId pageId page) ev

/-- Once all images are logged, the trace lists them in order. -/
theorem logImages_trace {txId : TxId} {pages : List Page} {s t : WalWriter FileId × Disk}
    (hs : s.1.file = .wal) (h : Transaction.logImages txId pages s = (.ok (), t)) :
    t.1.file = .wal ∧ ∃ events, t.2.trace = s.2.trace ++ events ∧
      List.Forall₂ (ImageLogged txId) pages events := by
  induction pages generalizing s with
  | nil =>
      cases h
      exact ⟨hs, [], by simp, List.Forall₂.nil⟩
  | cons page pages ih =>
      obtain ⟨⟨⟩, u, hpage, hrest⟩ := Exec.bind_eq_ok.1 h
      obtain ⟨kind, u', hlift, hpage⟩ := Exec.bind_eq_ok.1 hpage
      obtain ⟨hkind, rfl⟩ := Exec.liftM_eq_ok.1 hlift
      obtain ⟨lsn, u'', happend, hpage⟩ := Exec.bind_eq_ok.1 hpage
      cases hpage
      obtain ⟨pageId, hvalid, rfl⟩ := ofPage_eq_ok hkind
      obtain ⟨hu, ev, hev, htrace⟩ := append_appended hs happend
      obtain ⟨ht, events, htrace', hall⟩ := ih hu hrest
      refine ⟨ht, ev :: events, ?_, List.Forall₂.cons ⟨pageId, hvalid, hev⟩ hall⟩
      rw [htrace', htrace, List.append_assoc, List.singleton_append]

/-- What a successful log part has done: images, marker, sync. -/
theorem logCommit_trace {txId : TxId} {pages : List Page} {s t : WalWriter FileId × Disk}
    (hs : s.1.file = .wal) (h : Transaction.logCommit txId pages s = (.ok (), t)) :
    ∃ images marker, t.2.trace = s.2.trace ++ (images ++ [marker, ⟨.wal, .sync, true⟩]) ∧
      List.Forall₂ (ImageLogged txId) pages images ∧ Appended (.commitTx txId) marker := by
  obtain ⟨⟨⟩, u, himages, h⟩ := Exec.bind_eq_ok.1 h
  obtain ⟨lsn, v, happend, h⟩ := Exec.bind_eq_ok.1 h
  obtain ⟨⟨w, d⟩, v', hget, h⟩ := Exec.bind_eq_ok.1 h
  cases hget
  obtain ⟨hu, images, htrace, hall⟩ := logImages_trace hs himages
  obtain ⟨hv, marker, hmarker, htrace'⟩ := append_appended hu happend
  refine ⟨images, marker, ?_, hall, hmarker⟩
  simp only [Exec.onRight_apply, Prod.mk.injEq] at h
  obtain ⟨hok, rfl⟩ := h
  have hw : w.file = .wal := hv
  simp only [WalWriter.syncData, vfs_syncData, hw] at hok ⊢
  rcases trace_syncData .wal d with ⟨e, he, hsync⟩ | ⟨stop, e, he, -⟩
  · simp only at htrace'
    rw [he]
    simp only
    rw [hsync, htrace', htrace]
    simp
  · rw [he] at hok
    cases hok

/-! ## The data part -/

/-- A write of one of the pages at the offset of its own id, or a sync. -/
def PageEvent (pages : List Page) (ev : Event) : Prop :=
  ev.op = .sync ∨ ∃ page ∈ pages, ∃ pageId : PageId, ∃ offset : UInt64, page.ValidAs pageId ∧
    offset.toNat = pageId.val.toNat * pageSize ∧ ev.op = .write offset page.bytes

theorem writePage_grows {pageFile : PageFile FileId} {page : Page} {pages : List Page}
    (hpage : page ∈ pages) :
    Exec.Preserves (TraceGrows (PageEvent pages)) (pageFile.writePage page) := by
  rcases pageFile.writePage_cases page with ⟨stop, hstop⟩ | ⟨pageId, hvalid, hoff⟩
  · intro d
    rw [hstop d]
    exact TraceGrows.refl d
  · rw [pageFile.writePage_of_validAs hvalid hoff]
    refine writeAllAt_grows fun ok => Or.inr ⟨page, hpage, pageId, _, hvalid, ?_, rfl⟩
    exact toNat_ofNat_of_le le_rfl hoff

theorem writePages_grows (pageFile : PageFile FileId) (pages : List Page) :
    Exec.Preserves (TraceGrows (PageEvent pages))
      (Transaction.writePages pageFile pages) := by
  refine Exec.Preserves.bind (Exec.Preserves.forM fun page hpage => writePage_grows hpage) fun _ => ?_
  exact syncData_grows fun _ => Or.inl rfl

/-! ## Sessions -/

theorem Session.Does.good {call : Call} {s t : Session × Disk} (h : Session.Does call s t)
    (hs : s.1.Good) : t.1.Good := by
  cases h with
  | looks => exact hs
  | syncs => exact hs
  | starts hroom h =>
      have hlog := (append_logging _).rel h
      refine ⟨hs.data, hlog.file.trans hs.wal, ?_, ?_⟩
      · rintro tx ⟨⟩
        rfl
      · rintro tx ⟨⟩ id page hpage
        simp [TransactionalStore.started] at hpage
  | startFails hroom h =>
      have hlog := (append_logging _).rel h
      exact ⟨hs.data, hlog.file.trans hs.wal, nofun, nofun⟩
  | stages hcall h =>
      refine ⟨?_, ?_, ?_, ?_⟩
      · exact (congrArg (fun m : TransactionalStore FileId => m.store.pageFile.file) h.manager).trans
          hs.data
      · exact (congrArg (fun m : TransactionalStore FileId => m.wal.file) h.manager).trans hs.wal
      · rintro tx ⟨⟩
        exact h.state.trans (hs.state _ rfl)
      · rintro tx ⟨⟩
        exact h.staged (hs.staged _ rfl)
  | logFails h =>
      have hlog := (logCommit_logging _ _).rel h
      exact ⟨hs.data, hlog.file.trans hs.wal, nofun, nofun⟩
  | dataFails h h' =>
      have hlog := (logCommit_logging _ _).rel h
      exact ⟨hs.data, hlog.file.trans hs.wal, nofun, nofun⟩
  | commits h h' =>
      have hlog := (logCommit_logging _ _).rel h
      exact ⟨hs.data, hlog.file.trans hs.wal, nofun, nofun⟩
  | rollsBack h =>
      have hlog := (logAbort_logging _).rel h
      exact ⟨hs.data, hlog.file.trans hs.wal, nofun, nofun⟩
  | drops => exact ⟨hs.data, hs.wal, nofun, nofun⟩

/-- A session that has just been opened. -/
theorem open_good {d e : Disk} {store : TransactionalStore FileId}
    (h : openTransactionalStore .data .wal d = (.ok store, e)) : (Session.idle store).Good := by
  obtain ⟨catalogStore, u, hopen, h⟩ := Exec.bind_eq_ok.1 h
  obtain ⟨w, u', hwal, h⟩ := Exec.bind_eq_ok.1 h
  obtain ⟨catalog, v, -, hopen⟩ := Exec.bind_eq_ok.1 hopen
  obtain ⟨len, v', -, hwal⟩ := Exec.bind_eq_ok.1 hwal
  cases hopen
  cases hwal
  cases h
  exact ⟨rfl, rfl, nofun, nofun⟩

/-- Before a page is written, the trace has the image of the page, then the marker
of the transaction, then a sync of the log, all of them successful. -/
def WrittenAhead (before : List Event) (txId : TxId) (pageId : PageId) (page : Page) : Prop :=
  ∃ image marker xs ys zs ws,
    before = xs ++ image :: (ys ++ marker :: (zs ++ ⟨.wal, .sync, true⟩ :: ws)) ∧
    Appended (.pageImage txId pageId page) image ∧ Appended (.commitTx txId) marker

def DataWrite (ev : Event) : Prop := ev.file = .data ∧ ∃ offset bytes, ev.op = .write offset bytes

theorem Page.ValidAs.unique {page : Page} {id id' : PageId} (h : page.ValidAs id)
    (h' : page.ValidAs id') : id = id' := by
  obtain ⟨header, hvalid, rfl⟩ := h
  obtain ⟨header', hvalid', rfl⟩ := h'
  rw [hvalid.toShape.unique hvalid'.toShape]

theorem exists_imageLogged {txId : TxId} {pages : List Page} {images : List Event} {page : Page}
    (h : List.Forall₂ (ImageLogged txId) pages images) (hpage : page ∈ pages) :
    ∃ xs image ys, images = xs ++ image :: ys ∧ ImageLogged txId page image := by
  induction h with
  | nil => cases hpage
  | @cons page' image pages images himage _ ih =>
      rcases List.mem_cons.1 hpage with rfl | hpage
      · exact ⟨[], image, images, rfl, himage⟩
      · obtain ⟨xs, image', ys, rfl, h⟩ := ih hpage
        exact ⟨image :: xs, image', ys, rfl, h⟩

/-- The marker and the sync stand behind all images, whatever follows. -/
theorem writtenAhead_of_logged {txId : TxId} {pages : List Page} {images ws : List Event}
    {marker : Event} {page : Page} {pageId : PageId}
    (himages : List.Forall₂ (ImageLogged txId) pages images)
    (hmarker : Appended (.commitTx txId) marker) (hpage : page ∈ pages)
    (hid : page.ValidAs pageId) :
    WrittenAhead (images ++ [marker, ⟨.wal, .sync, true⟩] ++ ws) txId pageId page := by
  obtain ⟨xs, image, ys, rfl, pageId', hid', himage⟩ := exists_imageLogged himages hpage
  cases hid.unique hid'
  exact ⟨image, marker, xs, ys, [], ws, by simp, himage, hmarker⟩

theorem not_dataWrite_of_read {ev : Event} (h : VfsOp.isRead ev.op) : ¬ DataWrite ev := by
  rintro ⟨-, offset, bytes, hop⟩
  rw [hop] at h
  cases h

theorem not_dataWrite_of_wal {ev : Event} (h : ev.file = .wal) : ¬ DataWrite ev := by
  rintro ⟨hfile, -⟩
  rw [hfile] at h
  cases h

theorem not_dataWrite_of_sync {ev : Event} (h : ev.op = .sync) : ¬ DataWrite ev := by
  rintro ⟨-, offset, bytes, hop⟩
  rw [hop] at h
  cases h

/-- A write to the data file at the end of `before`, by the commit of the session's
transaction. -/
structure CommitWrites (s : Session) (before : List Event) (ev : Event) (tx : Transaction FileId)
    (pageId : PageId) (page : Page) : Prop where
  session : s = .active tx
  staged : page ∈ tx.stagedPages
  valid : page.ValidAs pageId
  write : ∃ offset : UInt64, offset.toNat = pageId.val.toNat * pageSize ∧
    ev.op = .write offset page.bytes
  ahead : WrittenAhead before tx.txId pageId page

/-- Of the events of a call, those that write to the data file are the writes of a
commit. -/
def WritesAhead (call : Call) (s : Session) (events : List Event) : Prop :=
  ∀ before ev after, events = before ++ ev :: after → DataWrite ev →
    call = .commit ∧ ∃ tx pageId page, CommitWrites s before ev tx pageId page

theorem writesAhead_of_grows {call : Call} {s : Session} {P : Event → Prop} {d e : Disk}
    (h : TraceGrows P d e) (hP : ∀ ev, P ev → ¬ DataWrite ev) :
    ∃ events, e.trace = d.trace ++ events ∧ WritesAhead call s events := by
  obtain ⟨events, htrace, hall⟩ := h
  refine ⟨events, htrace, ?_⟩
  intro before ev after hevents hwrite
  exact absurd hwrite (hP ev (hall ev (by rw [hevents]; simp)))

theorem logging_writesAhead {call : Call} {s : Session} {t u : WalWriter FileId × Disk}
    (h : Logging t u) (ht : t.1.file = .wal) :
    ∃ events, u.2.trace = t.2.trace ++ events ∧ WritesAhead call s events :=
  writesAhead_of_grows h.grows fun _ hev => not_dataWrite_of_wal (hev.trans ht)

theorem logged_wal {txId : TxId} {pages : List Page} {images : List Event} {marker : Event}
    (himages : List.Forall₂ (ImageLogged txId) pages images)
    (hmarker : Appended (.commitTx txId) marker) :
    ∀ ev ∈ images ++ [marker, ⟨.wal, .sync, true⟩], ev.file = .wal := by
  have hall : ∀ ev ∈ images, ev.file = .wal := by
    induction himages with
    | nil => simp
    | cons himage _ ih =>
        obtain ⟨pageId, -, lsn, rfl⟩ := himage
        exact List.forall_mem_cons.2 ⟨rfl, ih⟩
  obtain ⟨lsn, rfl⟩ := hmarker
  intro ev hev
  rcases List.mem_append.1 hev with hev | hev
  · exact hall ev hev
  · simp only [List.mem_cons, List.not_mem_nil, or_false] at hev
    rcases hev with rfl | rfl
    · rfl
    · rfl

/-- The log part has succeeded and the data part has started. -/
theorem commit_writesAhead {tx : Transaction FileId} {d e e' : Disk} {w : WalWriter FileId}
    (hw : tx.manager.wal.file = .wal)
    (h : Transaction.logCommit tx.txId tx.stagedPages (tx.manager.wal, d) = (.ok (), (w, e)))
    (h' : TraceGrows (PageEvent tx.stagedPages) e e') :
    ∃ events, e'.trace = d.trace ++ events ∧ WritesAhead .commit (.active tx) events := by
  obtain ⟨images, marker, htrace, himages, hmarker⟩ := logCommit_trace hw h
  obtain ⟨events, htrace', hall⟩ := h'
  simp only at htrace
  refine ⟨images ++ [marker, ⟨.wal, .sync, true⟩] ++ events, ?_, ?_⟩
  · rw [htrace', htrace]
    simp
  intro before ev after hsplit hwrite
  refine ⟨rfl, ?_⟩
  -- the events of the log part are none of the data file, so `ev` comes after them
  have hbehind : ∃ ws, before = images ++ [marker, ⟨.wal, .sync, true⟩] ++ ws ∧
      events = ws ++ ev :: after := by
    rcases List.append_eq_append_iff.1 hsplit with ⟨ws, hbefore, hevents⟩ | ⟨rest, hlog, hevents⟩
    · exact ⟨ws, hbefore, hevents⟩
    · cases rest with
      | nil => exact ⟨[], by rw [hlog]; simp, hevents.symm⟩
      | cons ev' rest =>
          cases hevents
          exact absurd hwrite (not_dataWrite_of_wal
            (logged_wal himages hmarker ev (by rw [hlog]; simp)))
  obtain ⟨ws, rfl, rfl⟩ := hbehind
  rcases hall ev (by simp) with hsync | ⟨page, hpage, pageId, offset, hvalid, hoffset, hop⟩
  · exact absurd hwrite (not_dataWrite_of_sync hsync)
  · exact ⟨tx, pageId, page, rfl, hpage, hvalid, ⟨offset, hoffset, hop⟩,
      writtenAhead_of_logged himages hmarker hpage hvalid⟩

theorem storeSync_grows (store : TransactionalStore FileId) (d : Disk) :
    TraceGrows (fun ev => ev.op = .sync) d (TransactionalStore.syncData (store, d)).2.2 := by
  have hdata : TraceGrows (fun ev => ev.op = .sync) d (store.store.syncData d).2 :=
    syncData_grows (fun _ => rfl) d
  simp only [TransactionalStore.syncData, Exec.bind_apply, Exec.get_apply, Exec.onRight_apply]
  rcases hcase : store.store.syncData d with ⟨stop | ⟨⟩, e⟩
  · rw [hcase] at hdata
    exact hdata
  · rw [hcase] at hdata
    exact hdata.trans (syncData_grows (fun _ => rfl) e)

/-- One call. -/
theorem Session.Does.writesAhead {call : Call} {s t : Session × Disk} (h : Session.Does call s t)
    (hs : s.1.Good) : ∃ events, t.2.trace = s.2.trace ++ events ∧ WritesAhead call s.1 events := by
  cases h with
  | looks hcall h => exact writesAhead_of_grows h.grows fun _ => not_dataWrite_of_read
  | @syncs store d =>
      exact writesAhead_of_grows (storeSync_grows store d) fun _ => not_dataWrite_of_sync
  | starts hroom h => exact logging_writesAhead ((append_logging _).rel h) hs.wal
  | startFails hroom h => exact logging_writesAhead ((append_logging _).rel h) hs.wal
  | stages hcall h => exact writesAhead_of_grows h.disk.grows fun _ => not_dataWrite_of_read
  | logFails h => exact logging_writesAhead ((logCommit_logging _ _).rel h) hs.wal
  | dataFails h h' => exact commit_writesAhead hs.wal h ((writePages_grows _ _).rel h')
  | commits h h' => exact commit_writesAhead hs.wal h ((writePages_grows _ _).rel h')
  | rollsBack h => exact logging_writesAhead ((logAbort_logging _).rel h) hs.wal
  | drops => exact ⟨[], by simp, fun before ev after h => by simp at h⟩

namespace Session

theorem step_good {s : Session × Disk} (hs : s.1.Good) (call : Call) : (step call s).1.Good :=
  (step_does hs call s.2).good hs

/-- A run only adds to the trace. -/
theorem run_trace {s : Session × Disk} (hs : s.1.Good) (calls : List Call) :
    ∃ events, (run calls s).2.trace = s.2.trace ++ events := by
  induction calls generalizing s with
  | nil => exact ⟨[], (List.append_nil _).symm⟩
  | cons call calls ih =>
      obtain ⟨events, htrace, -⟩ := (step_does hs call s.2).writesAhead hs
      obtain ⟨more, hmore⟩ := ih (step_good hs call)
      exact ⟨events ++ more, by rw [run, List.foldl_cons, ← run, hmore, htrace, List.append_assoc]⟩

/-- A write to the data file belongs to one of the calls of a run. -/
theorem run_writesAhead {s : Session × Disk} (hs : s.1.Good) (calls : List Call)
    {before after : List Event} {ev : Event}
    (htrace : (run calls s).2.trace = s.2.trace ++ (before ++ ev :: after))
    (hwrite : DataWrite ev) :
    ∃ earlier later tx pageId page inCommit rest,
      calls = earlier ++ .commit :: later ∧
      (run earlier s).2.trace ++ inCommit = s.2.trace ++ before ∧
      (run (earlier ++ [.commit]) s).2.trace = s.2.trace ++ (before ++ ev :: rest) ∧
      CommitWrites (run earlier s).1 inCommit ev tx pageId page := by
  induction calls generalizing s before with
  | nil => simp [run] at htrace
  | cons call calls ih =>
      obtain ⟨events, hevents, hahead⟩ := (step_does hs call s.2).writesAhead hs
      obtain ⟨more, hmore⟩ := run_trace (step_good hs call) calls
      rw [run, List.foldl_cons, ← run] at htrace
      have hsplit : events ++ more = before ++ ev :: after := by
        rw [hmore, hevents, List.append_assoc] at htrace
        exact List.append_cancel_left htrace
      by_cases hlater : ∃ rest, events = before ++ ev :: rest
      · -- the write belongs to this call, which is then a commit
        obtain ⟨rest, rfl⟩ := hlater
        obtain ⟨rfl, tx, pageId, page, hcommit⟩ := hahead before ev rest rfl hwrite
        exact ⟨[], calls, tx, pageId, page, before, rest, rfl, rfl, hevents, hcommit⟩
      · have hbefore : ∃ as, before = events ++ as := by
          rcases List.append_eq_append_iff.1 hsplit with ⟨as, hbefore, -⟩ | ⟨bs, hbs, hafter⟩
          · exact ⟨as, hbefore⟩
          · cases bs with
            | nil => exact ⟨[], by rw [hbs]; simp⟩
            | cons b bs =>
                cases hafter
                exact absurd ⟨bs, hbs⟩ hlater
        obtain ⟨as, rfl⟩ := hbefore
        have htrace' : (run calls (step call s)).2.trace =
            (step call s).2.trace ++ (as ++ ev :: after) := by
          rw [htrace, hevents]
          simp only [List.append_assoc]
        obtain ⟨earlier, later, tx, pageId, page, inCommit, rest, rfl, hin, hend, hcommit⟩ :=
          ih (step_good hs call) htrace'
        refine ⟨call :: earlier, later, tx, pageId, page, inCommit, rest, rfl, ?_, ?_, hcommit⟩
        · rw [run, List.foldl_cons, ← run, hin, hevents, List.append_assoc]
        · rw [List.cons_append, run, List.foldl_cons, ← run, hend, hevents]
          simp only [List.append_assoc]

end Session

/-- Every write to the data file after a session was opened is the write of a staged
page by a commit, at the offset of the page's id, and inside that commit the image
of the page, the marker and a sync of the log come before it. -/
theorem data_writes_follow_log {d₀ d : Disk} {store : TransactionalStore FileId}
    (hopen : openTransactionalStore .data .wal d₀ = (.ok store, d)) (calls : List Call)
    {before after : List Event} {ev : Event}
    (htrace : (Session.run calls (.idle store, d)).2.trace = d.trace ++ (before ++ ev :: after))
    (hwrite : DataWrite ev) :
    ∃ earlier later tx pageId page inCommit rest,
      calls = earlier ++ .commit :: later ∧
      (Session.run earlier (.idle store, d)).2.trace ++ inCommit = d.trace ++ before ∧
      (Session.run (earlier ++ [.commit]) (.idle store, d)).2.trace =
        d.trace ++ (before ++ ev :: rest) ∧
      CommitWrites (Session.run earlier (.idle store, d)).1 inCommit ev tx pageId page :=
  Session.run_writesAhead (open_good hopen) calls htrace hwrite

theorem isDataWrite_of_test {ev : Event} (h : (match ev with
    | ⟨.data, .write _ _, _⟩ => true
    | _ => false) = true) : DataWrite ev := by
  obtain ⟨file, op, ok⟩ := ev
  cases file with
  | wal => cases h
  | data =>
      cases op with
      | write offset bytes => exact ⟨rfl, offset, bytes, rfl⟩
      | _ => cases h

/-- The session writes a page when it creates a table. -/
theorem tableCalls_write : onFresh (fun store d =>
    ((Session.run tableCalls (.idle store, d)).2.trace.drop d.trace.length).any fun
      | ⟨.data, .write _ _, _⟩ => true
      | _ => false) = true := by
  decide +kernel

theorem data_writes_follow_log_one_table : ∃ store d before ev after,
    (Session.run tableCalls (.idle store, d)).2.trace = d.trace ++ (before ++ ev :: after) ∧
    DataWrite ev ∧ ∃ earlier later tx pageId page inCommit rest,
      tableCalls = earlier ++ .commit :: later ∧
      (Session.run earlier (.idle store, d)).2.trace ++ inCommit = d.trace ++ before ∧
      (Session.run (earlier ++ [.commit]) (.idle store, d)).2.trace =
        d.trace ++ (before ++ ev :: rest) ∧
      CommitWrites (Session.run earlier (.idle store, d)).1 inCommit ev tx pageId page := by
  obtain ⟨store, d, hopen, htest⟩ := of_onFresh tableCalls_write
  obtain ⟨events, htrace⟩ := @Session.run_trace (.idle store, d) (open_good hopen) tableCalls
  rw [htrace, List.drop_left] at htest
  obtain ⟨ev, hmem, hev⟩ := List.any_eq_true.1 htest
  obtain ⟨before, after, rfl⟩ := List.append_of_mem hmem
  have hwrite := isDataWrite_of_test hev
  exact ⟨store, d, before, ev, after, htrace, hwrite,
    data_writes_follow_log hopen tableCalls htrace hwrite⟩

end Rdbms
