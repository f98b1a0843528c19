import Rdbms.Recovery.Reused
import Rdbms.Wal.RoundTrip

/-!
# Logs that are cut off and written on

A crash may cut the log off at any byte. The next session appends behind whatever is left,
and a recovery pass reads the log from its start. The commits of that session can be
recovered when the cut has fallen between two records, none of its writes to the log has
failed, and no abort marker of an earlier session carries the id of its transaction. Behind
a torn record nothing can be read any more.
-/

namespace Rdbms

open Library Disk ByteFile

/-! ## Logs on which no write has failed -/

/-- A write to the log that fails. -/
def FailedLogWrite (ev : Event) : Prop :=
  ev.file = .wal ∧ (∃ offset bytes, ev.op = .write offset bytes) ∧ ev.ok = false

/-- As long as no write to the log fails, a writer at the end of a log stays there and adds
records whose kinds satisfy `P`. -/
def LogGrows (P : WalRecordKind → Prop) (s t : WalWriter FileId × Disk) : Prop :=
  ∃ events, t.2.trace = s.2.trace ++ events ∧ ((∀ ev ∈ events, ¬ FailedLogWrite ev) →
    ∀ records, AtEnd .wal records s.1 s.2 →
      ∃ new, AtEnd .wal (records ++ new) t.1 t.2 ∧ ∀ kind ∈ kindsOf new, P kind)

section Writer

variable {P : WalRecordKind → Prop} {records : List WalRecord} {w : WalWriter FileId}
  {d e : Disk} {txId : TxId} {pages : List Page} {s t : WalWriter FileId × Disk}

theorem AtEnd.of_wal (h : AtEnd .wal records w d) (hwal : e.wal = d.wal) :
    AtEnd .wal records w e := by
  have hfile : e.file .wal = d.file .wal := hwal
  exact ⟨⟨by rw [hfile, h.bytes], h.log⟩, h.file, by rw [hfile, h.next]⟩

instance : IsPreorder (WalWriter FileId × Disk) (LogGrows P) where
  refl s := ⟨[], by simp, fun _ records h => ⟨[], by rwa [List.append_nil], by simp [kindsOf]⟩⟩
  trans := by
    rintro s t u ⟨xs, hxs, hst⟩ ⟨ys, hys, htu⟩
    refine ⟨xs ++ ys, by rw [hys, hxs, List.append_assoc], ?_⟩
    intro hnone records hat
    rw [List.forall_mem_append] at hnone
    obtain ⟨new, hnew, hall⟩ := hst hnone.1 records hat
    obtain ⟨more, hmore, hall'⟩ := htu hnone.2 _ hnew
    refine ⟨new ++ more, by rwa [← List.append_assoc], ?_⟩
    rw [kindsOf_append, List.forall_mem_append]
    exact ⟨hall, hall'⟩

theorem LogGrows.imp {Q : WalRecordKind → Prop} (h : LogGrows P s t)
    (hPQ : ∀ kind, P kind → Q kind) : LogGrows Q s t := by
  obtain ⟨events, htrace, hadds⟩ := h
  refine ⟨events, htrace, fun hnone records hat => ?_⟩
  obtain ⟨new, hnew, hall⟩ := hadds hnone records hat
  exact ⟨new, hnew, fun kind hkind => hPQ kind (hall kind hkind)⟩

theorem logGrows_of_wal {Q : Event → Prop} (hwal : e.wal = d.wal) (htrace : TraceGrows Q d e)
    (w : WalWriter FileId) : LogGrows P (w, d) (w, e) := by
  obtain ⟨events, htrace, -⟩ := htrace
  refine ⟨events, htrace, fun _ records hat => ⟨[], ?_, by simp [kindsOf]⟩⟩
  rw [List.append_nil]
  exact hat.of_wal hwal

theorem append_logGrows {kind : WalRecordKind} (hkind : P kind) :
    Exec.Preserves (LogGrows P) (WalWriter.append kind : Db (WalWriter FileId × Disk) _) := by
  rintro ⟨w, d⟩
  by_cases hroom : w.allocator.next.val.toNat + kind.encodedLen < 2 ^ 64
  case neg =>
    rw [append_of_full hroom]
    exact refl_of (LogGrows P) _
  rcases happend : WalWriter.append kind (w, d) with ⟨stop | lsn, w', e⟩
  · -- the write has failed
    rw [append_eq hroom] at happend
    rcases trace_writeAllAt w.file w.allocator.next.val
      (WalRecord.bytes ⟨w.allocator.next, kind⟩) d with ⟨e', he, -⟩ | ⟨stop', e', he, htrace⟩
    · rw [he] at happend
      cases happend
    · rw [he] at happend
      cases happend
      refine ⟨_, htrace, fun hnone records hat => absurd ?_ (hnone _ (List.mem_singleton_self _))⟩
      exact ⟨hat.file, ⟨_, _, rfl⟩, rfl⟩
  · obtain ⟨-, htrace⟩ := append_trace kind (w, d)
    refine ⟨_, htrace lsn _ happend, fun _ records hat =>
      ⟨[⟨lsn, kind⟩], hat.append happend, ?_⟩⟩
    simpa [kindsOf] using hkind

theorem wal_syncData (fileId : FileId) (d : Disk) : (syncData fileId d).2.wal = d.wal := by
  rw [syncData]
  split
  · rfl
  · cases fileId <;> rfl

theorem syncWal_logGrows : Exec.Preserves (LogGrows P) (do
    let (writer, _) ← Exec.get
    Exec.onRight writer.syncData : Db (WalWriter FileId × Disk) Unit) := by
  rintro ⟨w, d⟩
  have hgrows : TraceGrows (fun _ => True) d (syncData w.file d).2 :=
    syncData_grows (fun _ => trivial) d
  exact logGrows_of_wal (wal_syncData w.file d) hgrows w

/-- The records of a commit. -/
def OfCommit (txId : TxId) (pages : List Page) (kind : WalRecordKind) : Prop :=
  kind = .commitTx txId ∨
    ∃ page ∈ pages, ∃ pageId, page.ValidAs pageId ∧ kind = .pageImage txId pageId page

theorem logCommit_logGrows (txId : TxId) (pages : List Page) :
    Exec.Preserves (LogGrows (OfCommit txId pages)) (Transaction.logCommit txId pages :
      Db (WalWriter FileId × Disk) Unit) := by
  refine Exec.Preserves.bind ?_ fun _ => ?_
  · refine Exec.Preserves.forM fun page hpage s => Exec.rel_check fun kind hkind => ?_
    obtain ⟨pageId, hvalid, rfl⟩ := ofPage_eq_ok hkind
    exact Exec.Preserves.bind (append_logGrows (Or.inr ⟨page, hpage, pageId, hvalid, rfl⟩))
      (fun _ => Exec.Preserves.pure _) s
  · exact Exec.Preserves.bind (append_logGrows (Or.inl rfl)) fun _ => syncWal_logGrows

theorem logAbort_logGrows (txId : TxId) :
    Exec.Preserves (LogGrows fun kind => kind = .abortTx txId) (Transaction.logAbort txId :
      Db (WalWriter FileId × Disk) Unit) :=
  Exec.Preserves.bind (append_logGrows rfl) fun _ => syncWal_logGrows

theorem AtEnd.logImages (h : AtEnd .wal records s.1 s.2)
    (hrun : Transaction.logImages txId pages s = (.ok (), t)) :
    ∃ new, AtEnd .wal (records ++ new) t.1 t.2 ∧ kindsOf new = imageKinds txId pages := by
  induction pages generalizing records s with
  | nil =>
      cases hrun
      exact ⟨[], by rwa [List.append_nil], rfl⟩
  | cons page pages ih =>
      obtain ⟨⟨⟩, u, hpage, hrest⟩ := Exec.bind_eq_ok.1 hrun
      obtain ⟨kind, u', hlift, hpage⟩ := Exec.bind_eq_ok.1 hpage
      obtain ⟨hkind, rfl⟩ := Exec.liftM_eq_ok.1 hlift
      obtain ⟨lsn, u'', happend, hpage⟩ := Exec.bind_eq_ok.1 hpage
      cases hpage
      obtain ⟨pageId, hvalid, rfl⟩ := ofPage_eq_ok hkind
      obtain ⟨new, hnew, hkinds⟩ := ih (h.append happend) hrest
      refine ⟨⟨lsn, .pageImage txId pageId page⟩ :: new, by rwa [List.append_assoc] at hnew, ?_⟩
      rw [imageKinds, List.map_cons, hvalid.id, ← imageKinds, ← hkinds]
      rfl

/-- The log part of a commit that succeeds adds the images and then the marker. -/
theorem AtEnd.logCommit (h : AtEnd .wal records s.1 s.2)
    (hrun : Transaction.logCommit txId pages s = (.ok (), t)) :
    ∃ new, AtEnd .wal (records ++ new) t.1 t.2 ∧
      kindsOf new = imageKinds txId pages ++ [.commitTx txId] := by
  obtain ⟨⟨⟩, u, himages, hrest⟩ := Exec.bind_eq_ok.1 hrun
  obtain ⟨lsn, v, happend, hrest⟩ := Exec.bind_eq_ok.1 hrest
  obtain ⟨⟨w, d⟩, v', hget, hsync⟩ := Exec.bind_eq_ok.1 hrest
  cases hget
  obtain ⟨new, hnew, hkinds⟩ := h.logImages himages
  have hmarked := hnew.append happend
  simp only [Exec.onRight_apply, Prod.mk.injEq] at hsync
  obtain ⟨-, rfl⟩ := hsync
  refine ⟨new ++ [⟨lsn, .commitTx txId⟩], ?_, by rw [kindsOf_append, hkinds]; rfl⟩
  rw [← List.append_assoc]
  exact hmarked.of_wal (wal_syncData _ _)

theorem wal_storeSync (store : TransactionalStore FileId) (d : Disk) :
    (TransactionalStore.syncData (store, d)).2.2.wal = d.wal := by
  simp only [TransactionalStore.syncData, Exec.bind_apply, Exec.get_apply, Exec.onRight_apply]
  have hdata : (store.store.syncData d).2.wal = d.wal := wal_syncData _ d
  rcases hcase : store.store.syncData d with ⟨stop | ⟨⟩, e⟩
  · rw [hcase] at hdata
    exact hdata
  · rw [hcase] at hdata
    exact (wal_syncData _ e).trans hdata

theorem wal_writePages {pageFile : PageFile FileId} (hfile : pageFile.file = .data)
    {r : DbResult Unit} (h : Transaction.writePages pageFile pages d = (r, e)) : e.wal = d.wal := by
  have hpages : Exec.Preserves SameButData (pages.forM pageFile.writePage) :=
    Exec.Preserves.forM fun page _ => writePage_sameButData hfile page
  rcases hrun : pages.forM pageFile.writePage d with ⟨stop | ⟨⟩, e₁⟩
  · rw [Transaction.writePages, Exec.bind_of_error hrun] at h
    cases h
    exact (hpages.rel hrun).wal
  · rw [Transaction.writePages, Exec.bind_of_ok hrun] at h
    have hsync := wal_syncData pageFile.file e₁
    rw [show syncData pageFile.file e₁ = (r, e) from h] at hsync
    exact hsync.trans (hpages.rel hrun).wal

end Writer

/-! ## Sessions on such a log -/

namespace Session

/-- Every abort marker that a session has logged carries an id below this one. -/
def idBound : Session → Nat
  | idle store => store.nextTxId.toNat
  | active tx => tx.txId.val.toNat

/-- The active transaction has an id that is not handed out again. -/
def IdTaken (s : Session) : Prop :=
  ∀ tx, s = active tx → tx.txId.val.toNat < tx.manager.nextTxId.toNat

/-- What a record says that a call adds. -/
structure Admits (call : Call) (s t : Session) (kind : WalRecordKind) : Prop where
  images : ∀ txId pageId image, kind = .pageImage txId pageId image →
    image.ValidAs pageId ∧ ∃ c ∈ commitOf call s, image ∈ c.2
  aborts : ∀ txId, kind = .abortTx txId → txId.val.toNat < t.idBound

variable {call : Call} {s t : Session × Disk}

theorem Does.idTaken (h : Does call s t) (hids : s.1.IdTaken) :
    s.1.idBound ≤ t.1.idBound ∧ t.1.IdTaken := by
  have hnext : ∀ {n : UInt64}, n.toNat + 1 < 2 ^ 64 → (n + 1).toNat = n.toNat + 1 := by
    intro n hroom
    rw [UInt64.toNat_add, UInt64.toNat_one, Nat.mod_eq_of_lt hroom]
  cases h with
  | looks => exact ⟨le_rfl, hids⟩
  | syncs => exact ⟨le_rfl, hids⟩
  | starts hroom h =>
      refine ⟨le_rfl, ?_⟩
      rintro tx ⟨⟩
      exact Nat.lt_of_lt_of_eq (Nat.lt_succ_self _) (hnext hroom).symm
  | startFails hroom h => exact ⟨(Nat.le_succ _).trans_eq (hnext hroom).symm, nofun⟩
  | @stages call tx tx' d e hcall h =>
      have hmanager : tx'.manager = tx.manager := h.manager
      have htxId : tx'.txId = tx.txId := h.txId
      refine ⟨(congrArg (fun id : TxId => id.val.toNat) htxId).ge, ?_⟩
      rintro tx' ⟨⟩
      rw [hmanager, htxId]
      exact hids tx rfl
  | logFails h => exact ⟨(hids _ rfl).le, nofun⟩
  | dataFails h h' => exact ⟨(hids _ rfl).le, nofun⟩
  | commits h h' => exact ⟨(hids _ rfl).le, nofun⟩
  | rollsBack h => exact ⟨(hids _ rfl).le, nofun⟩
  | drops => exact ⟨(hids _ rfl).le, nofun⟩

theorem admits_of_ofCommit {tx : Transaction FileId} {u : Session} {kind : WalRecordKind}
    (h : OfCommit tx.txId tx.stagedPages kind) : Admits .commit (active tx) u kind := by
  rcases h with rfl | ⟨page, hpage, pageId, hvalid, rfl⟩
  · exact ⟨nofun, nofun⟩
  · refine ⟨?_, nofun⟩
    rintro _ _ _ ⟨⟩
    exact ⟨hvalid, (tx.txId, tx.stagedPages), List.mem_singleton_self _, hpage⟩

theorem admits_begin {call : Call} {s u : Session} {txId : TxId} :
    Admits call s u (.beginTx txId) := ⟨nofun, nofun⟩

theorem Does.logGrows (h : Does call s t) (hs : s.1.Good) (hids : s.1.IdTaken) :
    LogGrows (Admits call s.1 t.1) (s.1.handle.wal, s.2) (t.1.handle.wal, t.2) := by
  have hdata : ∀ {tx : Transaction FileId} {d e e' : Disk} {w : WalWriter FileId} {u : Session}
      {r : DbResult Unit}, Good (active tx) →
      Transaction.logCommit tx.txId tx.stagedPages (tx.manager.wal, d) = (.ok (), (w, e)) →
      Transaction.writePages tx.manager.store.pageFile tx.stagedPages e = (r, e') →
      LogGrows (Admits .commit (active tx) u) (tx.manager.wal, d) (w, e') := by
    intro tx d e e' w u r hgood hlog hwrite
    exact trans_of (LogGrows _)
      (((logCommit_logGrows _ _).rel hlog).imp fun _ => admits_of_ofCommit)
      (logGrows_of_wal (wal_writePages hgood.data hwrite) ((writePages_grows _ _).rel hwrite) w)
  cases h with
  | looks hcall h => exact logGrows_of_wal h.files.wal h.grows _
  | @syncs store d => exact logGrows_of_wal (wal_storeSync store d) (storeSync_grows store d) _
  | starts hroom h =>
      exact ((append_logGrows rfl).rel h).imp fun _ hkind => hkind ▸ admits_begin
  | startFails hroom h =>
      exact ((append_logGrows rfl).rel h).imp fun _ hkind => hkind ▸ admits_begin
  | @stages call tx tx' d e hcall h =>
      have hwal : tx'.manager.wal = tx.manager.wal :=
        congrArg (fun m : TransactionalStore FileId => m.wal) h.manager
      change LogGrows _ (tx.manager.wal, d) (tx'.manager.wal, e)
      rw [hwal]
      exact logGrows_of_wal h.disk.files.wal h.disk.grows _
  | logFails h => exact ((logCommit_logGrows _ _).rel h).imp fun _ => admits_of_ofCommit
  | dataFails h h' => exact hdata hs h h'
  | commits h h' => exact hdata hs h h'
  | rollsBack h =>
      refine ((logAbort_logGrows _).rel h).imp fun kind hkind => ?_
      subst hkind
      refine ⟨nofun, ?_⟩
      rintro _ ⟨⟩
      exact hids _ rfl
  | @drops tx d => exact refl_of (LogGrows _) _

/-- The log of a session of which no write has failed: what it has found there and what it
has added. -/
structure Extends (old new : List WalRecord) (tried : List (TxId × List Page))
    (s : Session × Disk) : Prop where
  atEnd : AtEnd .wal (old ++ new) s.1.handle.wal s.2
  images : ∀ txId pageId image, .pageImage txId pageId image ∈ kindsOf new →
    image.ValidAs pageId ∧ ∃ c ∈ tried, image ∈ c.2
  aborts : ∀ txId, .abortTx txId ∈ kindsOf new → txId.val.toNat < s.1.idBound
  ids : s.1.IdTaken

variable {old new : List WalRecord} {tried : List (TxId × List Page)}

/-- One call. -/
theorem Extends.step (h : Extends old new tried s) (hs : s.1.Good) (call : Call)
    (hpass : TraceGrows (fun ev => ¬ FailedLogWrite ev) s.2 (Session.step call s).2) :
    ∃ added, Extends old (new ++ added) (tried ++ commitOf call s.1) (Session.step call s) := by
  have hdoes := step_does hs call s.2
  obtain ⟨hbound, hids⟩ := hdoes.idTaken h.ids
  obtain ⟨events, htrace, hadds⟩ := hdoes.logGrows hs h.ids
  obtain ⟨events', htrace', hnone⟩ := hpass
  obtain rfl : events' = events := List.append_cancel_left (htrace'.symm.trans htrace)
  obtain ⟨added, hat, hall⟩ := hadds hnone _ h.atEnd
  refine ⟨added, by rwa [← List.append_assoc], ?_, ?_, hids⟩
  · intro txId pageId image hmem
    rw [kindsOf_append, List.mem_append] at hmem
    rcases hmem with hmem | hmem
    · obtain ⟨hvalid, c, hc, hpage⟩ := h.images txId pageId image hmem
      exact ⟨hvalid, c, List.mem_append_left _ hc, hpage⟩
    · obtain ⟨hvalid, c, hc, hpage⟩ := (hall _ hmem).images txId pageId image rfl
      exact ⟨hvalid, c, List.mem_append_right _ hc, hpage⟩
  · intro txId hmem
    rw [kindsOf_append, List.mem_append] at hmem
    rcases hmem with hmem | hmem
    · exact (h.aborts txId hmem).trans_le hbound
    · exact (hall _ hmem).aborts txId rfl

/-- A run. -/
theorem Extends.run (h : Extends old new tried s) (hs : s.1.Good) (calls : List Call)
    (hpass : TraceGrows (fun ev => ¬ FailedLogWrite ev) s.2 (Session.run calls s).2) :
    ∃ added, Extends old (new ++ added) (tried ++ commits calls s) (Session.run calls s) := by
  induction calls generalizing s new tried with
  | nil => exact ⟨[], by rwa [List.append_nil, commits, List.append_nil]⟩
  | cons call calls ih =>
      obtain ⟨events, hevents, -⟩ := (step_does hs call s.2).writesAhead hs
      obtain ⟨more, hmore⟩ := run_trace (step_good hs call) calls
      obtain ⟨all, hall, hnone⟩ := hpass
      have hsplit : all = events ++ more := by
        rw [Session.run, List.foldl_cons, ← Session.run, hmore, hevents, List.append_assoc] at hall
        exact List.append_cancel_left hall.symm
      rw [hsplit, List.forall_mem_append] at hnone
      obtain ⟨added, hstep⟩ := h.step hs call ⟨events, hevents, hnone.1⟩
      obtain ⟨rest, hrest⟩ := ih hstep (step_good hs call) ⟨more, hmore, hnone.2⟩
      refine ⟨added ++ rest, ?_⟩
      rwa [List.append_assoc, List.append_assoc] at hrest

end Session

/-! ## Commits after a crash -/

/-- A crash has left the first `n` bytes of what a session and those before it had appended
to the log. The data file and the faults that are still to come are left open. -/
structure Crashed (records : List WalRecord) (n : Nat) (d : Disk) : Prop where
  session : ∃ parts c c' store calls w, Sessions parts c ∧
    openTransactionalStore .data .wal c = (.ok store, c') ∧
    LogReady records w (Session.run calls (.idle store, c')).2
  within : n ≤ (encodeLog records).length
  bytes : d.wal.bytes = (encodeLog records).take n

variable {records : List WalRecord} {n : Nat} {d d' e e' : Disk}
  {store : TransactionalStore FileId} {tx tx' : Transaction FileId}

theorem Crashed.log (h : Crashed records n d) : LogFrom 0 records ∧ ValidImages records := by
  obtain ⟨parts, c, c', store, calls, w, hsessions, hopen, hready⟩ := h.session
  obtain ⟨-, new, hready', hvalid⟩ := hsessions.restartable.session hopen calls
  obtain rfl : records = parts.flatten ++ new := records_unique hready' hready
  refine ⟨hready.wal.log, fun record hrecord => ?_⟩
  rcases List.mem_append.1 hrecord with hold | hnew
  · exact hsessions.restartable.valid record hold
  · exact hvalid record hnew

theorem fits_of_writePage {pageFile : PageFile FileId} {page : Page} {u : Unit}
    (h : pageFile.writePage page d = (.ok u, e)) : Fits page.number := by
  rcases pageFile.writePage_cases page with ⟨stop, hstop⟩ | ⟨pageId, hvalid, hoff⟩
  · rw [hstop d] at h
    cases h
  · rw [pageFile.writePage_of_validAs hvalid hoff] at h
    have hend := (writeAllAt_eq_ok h).2
    rw [UInt64.toNat_ofNat', Nat.mod_eq_of_lt hoff, page.size_eq] at hend
    refine fits_of_end_lt ?_
    rw [hvalid.number, Nat.add_mul, Nat.one_mul]
    exact hend

theorem fits_of_writePages {pageFile : PageFile FileId} {pages : List Page} {u : Unit}
    (h : Transaction.writePages pageFile pages d = (.ok u, e)) :
    ∀ page ∈ pages, Fits page.number := by
  obtain ⟨⟨⟩, e₁, hpages, -⟩ := Exec.bind_eq_ok.1 h
  clear h
  induction pages generalizing d with
  | nil => simp
  | cons page pages ih =>
      obtain ⟨⟨⟩, e₂, hpage, hrest⟩ := Exec.bind_eq_ok.1 hpages
      exact List.forall_mem_cons.2 ⟨fits_of_writePage hpage, ih hrest⟩

/-- What a session that is opened on a log has logged when a commit of it returns. -/
theorem Session.Extends.commit {old new : List WalRecord} {tried : List (TxId × List Page)}
    (h : Session.Extends old new tried (.active tx, e)) (hs : (Session.active tx).Good)
    (hcommit : Transaction.commit (tx, e) = (.ok (), (tx', e'))) :
    ∃ last, e'.wal.bytes = encodeLog (old ++ new ++ last) ∧ LogFrom 0 (old ++ new ++ last) ∧
      kindsOf last = imageKinds tx.txId tx.stagedPages ++ [.commitTx tx.txId] ∧
      ∀ page ∈ tx.stagedPages, Fits page.number := by
  obtain ⟨w, e₁, hlog, hwrite, rfl⟩ := Transaction.parts_of_commit (hs.state tx rfl) hcommit
  obtain ⟨last, hlast, hkinds⟩ := h.atEnd.logCommit hlog
  refine ⟨last, ?_, hlast.log, hkinds, fits_of_writePages hwrite⟩
  rw [wal_writePages hs.data hwrite]
  exact hlast.bytes

/-- The first bytes of a file. -/
def ByteFile.cut (f : ByteFile) (n : Nat) : ByteFile :=
  ⟨f.bytes.take n, (List.length_take_le' n f.bytes).trans_lt f.length_lt⟩

end Rdbms
