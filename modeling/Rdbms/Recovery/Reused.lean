import Rdbms.Recovery.Clean

/-!
# Transaction ids that are used again

Every session numbers its transactions from the first id on, and the sessions on one pair
of files share the log. A recovery pass looks for the markers of an id in the whole log. It
therefore puts back the images of exactly the transactions that have been committed as long
as the markers of one session say nothing about the images of another.
-/

namespace Rdbms

open Library Disk ByteFile

/-! ## What a pass hands to its receiver -/

/-- A receiver that notes the images it is handed. -/
structure RedoneImages where
  images : List (Lsn × TxId × PageId × Page)

instance : PageImageRedo RedoneImages where
  redoPageImage lsn txId pageId image :=
    Exec.modify fun s => ⟨s.images ++ [(lsn, txId, pageId, image)]⟩

/-- What a pass hands on of one record. -/
def redoneImage (committed aborted : List TxId) (record : WalRecord) :
    Option (Lsn × TxId × PageId × Page) :=
  match record.kind with
  | .pageImage txId pageId image =>
      if txId ∈ committed ∧ txId ∉ aborted then some (record.lsn, txId, pageId, image) else none
  | _ => none

/-- The images are valid pages under their ids. -/
def ValidImages (records : List WalRecord) : Prop :=
  ∀ record ∈ records, ∀ txId pageId image, record.kind = .pageImage txId pageId image →
    image.ValidAs pageId

variable {committed aborted : List TxId} {records : List WalRecord} {record : WalRecord}
  {txId : TxId} {pageId : PageId} {image : Page}

theorem redoRecord_images (h : ∀ txId pageId image, record.kind = .pageImage txId pageId image →
    image.ValidAs pageId) (images : List (Lsn × TxId × PageId × Page)) :
    redoRecord committed aborted record (⟨images⟩ : RedoneImages) =
      (.ok (), ⟨images ++ (redoneImage committed aborted record).toList⟩) := by
  obtain ⟨lsn, kind⟩ := record
  cases kind with
  | pageImage txId pageId image =>
      have hvalidAs := h txId pageId image rfl
      obtain ⟨header, hvalid, hid⟩ := hvalidAs
      have hheader := (Page.header_eq_ok_iff image header).2 hvalid.toShape
      by_cases hmem : txId ∈ committed ∧ txId ∉ aborted
      · simp only [redoRecord, redoneImage, if_pos hmem, fromBytes_of_validAs ⟨header, hvalid, hid⟩,
          hheader, Exec.bind_apply, Exec.liftM_apply, failIf_of_not (not_not.2 hid)]
        rfl
      · simp only [redoRecord, redoneImage, if_neg hmem, Option.toList_none, List.append_nil]
        rfl
  | beginTx txId => simp [redoRecord, redoneImage]
  | commitTx txId => simp [redoRecord, redoneImage]
  | abortTx txId => simp [redoRecord, redoneImage]
  | checkpoint => simp [redoRecord, redoneImage]

theorem forM_redoRecord_images (h : ValidImages records)
    (images : List (Lsn × TxId × PageId × Page)) :
    records.forM (redoRecord committed aborted) (⟨images⟩ : RedoneImages) =
      (.ok (), ⟨images ++ records.filterMap (redoneImage committed aborted)⟩) := by
  induction records generalizing images with
  | nil =>
      rw [List.filterMap_nil, List.append_nil]
      rfl
  | cons record records ih =>
      rw [ValidImages, List.forall_mem_cons] at h
      have hfirst : redoRecord committed aborted record (⟨images⟩ : RedoneImages) = _ :=
        redoRecord_images h.1 images
      refine (Exec.bind_of_ok hfirst).trans ((ih h.2 _).trans ?_)
      rw [filterMap_cons_toList, List.append_assoc]

theorem redo_images (h : ValidImages records) :
    redoCommittedPageImages records (⟨[]⟩ : RedoneImages) =
      (.ok (), ⟨records.filterMap (redoneImage (committedIds records) (abortedIds records))⟩) :=
  (forM_redoRecord_images h []).trans (by rw [List.nil_append])

theorem mem_redone (hrecord : record ∈ records)
    (hkind : record.kind = .pageImage txId pageId image) :
    (record.lsn, txId, pageId, image) ∈ records.filterMap (redoneImage committed aborted) ↔
      txId ∈ committed ∧ txId ∉ aborted := by
  constructor
  · intro hmem
    obtain ⟨⟨lsn, kind⟩, -, hredone⟩ := List.mem_filterMap.1 hmem
    cases kind with
    | pageImage txId' pageId' image' =>
        simp only [redoneImage] at hredone
        split at hredone
        · rename_i hids
          cases hredone
          exact hids
        · cases hredone
    | beginTx txId => cases hredone
    | commitTx txId => cases hredone
    | abortTx txId => cases hredone
    | checkpoint => cases hredone
  · intro hids
    refine List.mem_filterMap.2 ⟨record, hrecord, ?_⟩
    simp only [redoneImage, hkind, if_pos hids]

/-! ## Sessions that share a log -/

/-- The logs that sessions leave, one part for each session, and the disk with the files
after the last one. A session may end at any record boundary of what it has logged; what the
data file then holds is left open. -/
inductive Sessions : List (List WalRecord) → Disk → Prop
  | empty {d : Disk} (hd : FaultFree d) (hwal : d.wal.bytes = []) (hsynced : d.walSynced = 0) :
      Sessions [] d
  | session {parts : List (List WalRecord)} {d d' e : Disk} {store : TransactionalStore FileId}
      {new : List WalRecord} {w : WalWriter FileId} (h : Sessions parts d)
      (hopen : openTransactionalStore .data .wal d = (.ok store, d')) (calls : List Call)
      (hlog : LogReady (parts.flatten ++ new) w (Session.run calls (.idle store, d')).2) (k : Nat)
      (he : FaultFree e) (hbytes : e.wal.bytes = encodeLog (parts.flatten ++ new.take k))
      (hsynced : e.walSynced ≤ e.wal.bytes.length) : Sessions (parts ++ [new.take k]) e

/-- What the next session finds. -/
structure Restartable (parts : List (List WalRecord)) (d : Disk) : Prop where
  faultFree : FaultFree d
  bytes : d.wal.bytes = encodeLog parts.flatten
  log : LogFrom 0 parts.flatten
  synced : d.walSynced ≤ d.wal.bytes.length
  valid : ValidImages parts.flatten

theorem History.validImages {base : ByteFile} {old new : List WalRecord} {logs : List TxLog}
    {store : TransactionalStore FileId} {d : Disk} (h : History base old new logs store d) :
    ValidImages new := by
  intro record hrecord txId pageId image hkind
  have hmem : record.kind ∈ kindsOf new := List.mem_map_of_mem hrecord
  rw [hkind, h.kinds, List.mem_flatMap] at hmem
  obtain ⟨t, ht, hmem⟩ := hmem
  rcases List.mem_cons.1 hmem with hbegin | hmem
  · cases hbegin
  have hintended := (h.ok t ht).prefix_intended.subset hmem
  rw [TxLog.intended] at hintended
  cases hattempt : t.attempt with
  | none =>
      rw [hattempt] at hintended
      cases List.mem_singleton.1 hintended
  | some pages =>
      rw [hattempt] at hintended
      rcases List.mem_append.1 hintended with himage | hcommit
      · obtain ⟨page, hpage, heq⟩ := List.mem_map.1 himage
        cases heq
        obtain ⟨id, hvalid⟩ := (h.ok t ht).valid pages hattempt image hpage
        rw [hvalid.id]
        exact hvalid
      · cases List.mem_singleton.1 hcommit

/-- On a disk without faults a run meets none. -/
theorem Session.run_faultFree {s : Session × Disk} {base : ByteFile} {old new : List WalRecord}
    {logs : List TxLog} (hs : s.1.Good) (hh : HasHistory base old new logs s) (hd : FaultFree s.2)
    (calls : List Call) : FaultFree (run calls s).2 := by
  induction calls generalizing s new logs with
  | nil => exact hd
  | cons call calls ih =>
      have hdoes := step_does hs call s.2
      obtain ⟨added, logs', hh', -⟩ := hdoes.continues hs hh
      obtain ⟨new', w, hready, -⟩ := hdoes.adds hs ⟨hh.history.wal, hd⟩
      exact ih (step_good hs call) hh' hready.faultFree

variable {parts : List (List WalRecord)} {d d' : Disk} {store : TransactionalStore FileId}

/-- What a session adds to the log. -/
theorem Restartable.session (h : Restartable parts d)
    (hopen : openTransactionalStore .data .wal d = (.ok store, d')) (calls : List Call) :
    (Session.run calls (.idle store, d')).1.Good ∧
    ∃ new, LogReady (parts.flatten ++ new) (Session.run calls (.idle store, d')).1.handle.wal
      (Session.run calls (.idle store, d')).2 ∧ ValidImages new := by
  have hwal := open_walAt h.faultFree.crashOnly h.bytes h.log h.synced hopen
  have hhistory : Session.HasHistory d'.data parts.flatten [] [] (.idle store, d') :=
    { wal := by rwa [List.append_nil]
      kinds := rfl
      data := fun n hn => absurd rfl hn
      ok := by simp
      nodup := List.nodup_nil
      below := by simp }
  have hgood := open_good hopen
  obtain ⟨hgood', added, logs, hh, -⟩ := Session.run_continues hgood hhistory calls
  rw [List.nil_append] at hh
  have hfree := Session.run_faultFree hgood hhistory (open_faultFree h.faultFree hopen) calls
  exact ⟨hgood', added, ⟨hh.history.wal, hfree⟩, hh.history.validImages⟩

theorem Sessions.restartable (h : Sessions parts d) : Restartable parts d := by
  induction h with
  | @empty d hd hwal hsynced =>
      refine ⟨hd, hwal, trivial, by rw [hsynced]; exact Nat.zero_le _, ?_⟩
      intro record hrecord
      cases hrecord
  | @session parts d d' e store new w h hopen calls hlog k he hbytes hsynced ih =>
      obtain ⟨-, new', hready, hvalid⟩ := ih.session hopen calls
      obtain rfl : new = new' := List.append_cancel_left (records_unique hready hlog)
      have hflat : (parts ++ [new.take k]).flatten = parts.flatten ++ new.take k := by simp
      refine ⟨he, by rw [hflat, hbytes], ?_, hsynced, ?_⟩
      · rw [hflat, logFrom_append]
        exact ⟨ih.log, (logFrom_append.1 hlog.wal.log).2.take k⟩
      · rw [hflat]
        intro record hrecord
        rcases List.mem_append.1 hrecord with hold | hnew
        · exact ih.valid record hold
        · exact hvalid record (List.mem_of_mem_take hnew)

/-- A session that ends normally leaves all of its log. -/
theorem Sessions.ended (h : Sessions parts d)
    (hopen : openTransactionalStore .data .wal d = (.ok store, d')) {calls : List Call}
    {new : List WalRecord} {w : WalWriter FileId}
    (hlog : LogReady (parts.flatten ++ new) w (Session.run calls (.idle store, d')).2) :
    Sessions (parts ++ [new]) (Session.run calls (.idle store, d')).2 := by
  have hsession := Sessions.session h hopen calls hlog new.length hlog.faultFree
    (by rw [List.take_length, hlog.wal.bytes]) hlog.wal.synced
  rwa [List.take_length] at hsession

/-! ## Instances of transactions -/

/-- A pass over the whole log returns, and hands on an image if and only if the session that
has logged it has logged the commit marker of its transaction. -/
def RedoesInstances (parts : List (List WalRecord)) : Prop :=
  ∃ redone : RedoneImages,
    redoCommittedPageImages parts.flatten (⟨[]⟩ : RedoneImages) = (.ok (), redone) ∧
    ∀ part ∈ parts, ∀ record ∈ part, ∀ txId pageId image,
      record.kind = .pageImage txId pageId image →
        ((record.lsn, txId, pageId, image) ∈ redone.images ↔ txId ∈ committedIds part)

/-- The markers of other sessions do not speak about the transactions of a session that have
logged images: none of those it has committed is aborted under its id, and none of the others
is committed under its id without being aborted. -/
def IdsKeptApart (parts : List (List WalRecord)) : Prop :=
  ∀ part ∈ parts, ∀ record ∈ part, ∀ txId pageId image,
    record.kind = .pageImage txId pageId image →
      (txId ∈ committedIds part → ∀ other ∈ parts, txId ∉ abortedIds other) ∧
      (txId ∉ committedIds part → (∃ other ∈ parts, txId ∈ committedIds other) →
        ∃ other ∈ parts, txId ∈ abortedIds other)

theorem mem_kindsOf_flatten {kind : WalRecordKind} :
    kind ∈ kindsOf parts.flatten ↔ ∃ part ∈ parts, kind ∈ kindsOf part := by
  simp only [kindsOf, List.mem_map, List.mem_flatten]
  constructor
  · rintro ⟨record, ⟨part, hpart, hrecord⟩, hkind⟩
    exact ⟨part, hpart, record, hrecord, hkind⟩
  · rintro ⟨part, hpart, record, hrecord, hkind⟩
    exact ⟨record, ⟨part, hpart, hrecord⟩, hkind⟩

theorem redoesInstances_iff (h : ValidImages parts.flatten) :
    RedoesInstances parts ↔ IdsKeptApart parts := by
  have hredo := redo_images h
  have hmem : ∀ {part record txId pageId image}, part ∈ parts → record ∈ part →
      record.kind = .pageImage txId pageId image →
      ((record.lsn, txId, pageId, image) ∈ parts.flatten.filterMap
        (redoneImage (committedIds parts.flatten) (abortedIds parts.flatten)) ↔
      (∃ other ∈ parts, txId ∈ committedIds other) ∧ ¬ ∃ other ∈ parts, txId ∈ abortedIds other) := by
    intro part record txId pageId image hpart hrecord hkind
    rw [mem_redone (List.mem_flatten.2 ⟨part, hpart, hrecord⟩) hkind, mem_committedIds,
      mem_abortedIds, mem_kindsOf_flatten, mem_kindsOf_flatten]
    simp only [mem_committedIds, mem_abortedIds]
  constructor
  · rintro ⟨redone, hrun, hall⟩ part hpart record hrecord txId pageId image hkind
    rw [hredo] at hrun
    cases hrun
    have hiff := hall part hpart record hrecord txId pageId image hkind
    rw [hmem hpart hrecord hkind] at hiff
    constructor
    · intro hcommitted other hother haborted
      exact (hiff.2 hcommitted).2 ⟨other, hother, haborted⟩
    · intro hnot hcommitted
      by_contra hnone
      exact hnot (hiff.1 ⟨hcommitted, hnone⟩)
  · intro hapart
    refine ⟨_, hredo, ?_⟩
    intro part hpart record hrecord txId pageId image hkind
    obtain ⟨hcommitted, hothers⟩ := hapart part hpart record hrecord txId pageId image hkind
    rw [hmem hpart hrecord hkind]
    constructor
    · rintro ⟨hsome, hnone⟩
      by_contra hnot
      exact hnone (hothers hnot hsome)
    · intro hown
      refine ⟨⟨part, hpart, hown⟩, ?_⟩
      rintro ⟨other, hother, haborted⟩
      exact hcommitted hown other hother haborted

/-- Recovery redoes the instances of transactions that have been committed exactly when the
sessions have kept their ids apart. -/
theorem sessions_redo_instances_iff (h : Sessions parts d) :
    RedoesInstances parts ↔ IdsKeptApart parts := redoesInstances_iff h.restartable.valid

/-- One session rolls its first transaction back, and the first transaction of the next one
creates a table and is committed. -/
theorem rolledBack_then_committed : onFresh (fun store d =>
    match Session.run [.begin] (.idle store, d) with
    | (.active tx, e) =>
        tx.txId == ⟨1⟩ && (Transaction.logAbort tx.txId (tx.manager.wal, e)).1.isOk &&
          opened (fun store' d' =>
            match Session.run [.begin, .createTable "t" [⟨"a", "INTEGER"⟩]] (.idle store', d') with
            | (.active tx', e') =>
                tx'.txId == ⟨1⟩ && !tx'.stagedPages.isEmpty &&
                  (tx'.stagedPages.all fun page => decide (page.number + 1 < 2 ^ 52)) &&
                  (Transaction.commit (tx', e')).1.isOk
            | _ => false)
            (openTransactionalStore FileId.data FileId.wal (Session.step .rollback (.active tx, e)).2)
    | _ => false) = true := by
  decide +kernel

/-- Two sessions whose first transactions have the same id. -/
theorem two_sessions : ∃ first second d, Sessions [first, second] d ∧
    .abortTx ⟨1⟩ ∈ kindsOf first ∧ .commitTx ⟨1⟩ ∈ kindsOf second ∧
    ∃ pageId image, .pageImage ⟨1⟩ pageId image ∈ kindsOf second := by
  obtain ⟨store, d, hopen, htest⟩ := of_onFresh rolledBack_then_committed
  have hempty : Sessions [] fresh := Sessions.empty fresh_faultFree rfl rfl
  obtain ⟨hgood, records, hready, -⟩ := hempty.restartable.session hopen [.begin]
  rcases hbegun : Session.run [.begin] (.idle store, d) with ⟨store' | tx, e⟩
  · rw [hbegun] at htest
    cases htest
  rw [hbegun] at htest hgood hready
  simp only [Bool.and_eq_true] at htest
  obtain ⟨⟨hid, habort⟩, hsecond⟩ := htest
  have hactive := hgood.state tx rfl
  have hready : LogReady records tx.manager.wal e := hready
  -- the first session logs its abort marker
  rcases logAbort_logged tx.txId hready with ⟨w, e₁, hlog, hlogged⟩ | ⟨hlog, -⟩
  swap
  · rw [hlog] at habort
    cases habort
  obtain ⟨new, hready₁, hkinds⟩ := hlogged.ready
  have hrun : Session.run [.begin, .rollback] (.idle store, d) =
      Session.step .rollback (.active tx, e) := by
    change Session.step .rollback (Session.run [.begin] (.idle store, d)) = _
    rw [hbegun]
  have hdisk : (Session.run [.begin, .rollback] (.idle store, d)).2 = e₁ := by
    rw [hrun]
    change (Transaction.rollback (tx, e)).2.2 = e₁
    rw [Transaction.rollback_eq hactive, hlog]
  have hfirst : Sessions [records ++ new] (Session.run [.begin, .rollback] (.idle store, d)).2 :=
    hempty.ended hopen (by rw [hdisk]; exact hready₁)
  -- the second session commits under the same id
  rw [← hrun] at hsecond
  obtain ⟨store₂, d₂, hopen₂, htest₂⟩ := of_opened hsecond
  obtain ⟨hgood₂, records₂, hready₂, -⟩ :=
    hfirst.restartable.session hopen₂ [.begin, .createTable "t" [⟨"a", "INTEGER"⟩]]
  rcases hcreated : Session.run [.begin, .createTable "t" [⟨"a", "INTEGER"⟩]] (.idle store₂, d₂)
    with ⟨store' | tx₂, e₂⟩
  · rw [hcreated] at htest₂
    cases htest₂
  rw [hcreated] at htest₂ hgood₂ hready₂
  have hready₂ : LogReady ([records ++ new].flatten ++ records₂) tx₂.manager.wal e₂ := hready₂
  simp only [Bool.and_eq_true] at htest₂
  obtain ⟨⟨⟨hid₂, hstaged⟩, hplaces⟩, hok⟩ := htest₂
  have hfits : ∀ page ∈ tx₂.stagedPages, Fits page.number := by
    intro page hpage
    have hplace : page.number + 1 < 2 ^ 52 :=
      of_decide_eq_true (List.all_eq_true.1 hplaces page hpage)
    exact hplace
  have hcommits := Transaction.commit_commits hready₂ (hgood₂.state tx₂ rfl)
    (congrArg PageFile.mk hgood₂.data) (hgood₂.staged tx₂ rfl) hfits
  rcases hcommit : Transaction.commit (tx₂, e₂) with ⟨outcome, tx₃, e₃⟩
  rw [hcommit] at hcommits hok
  cases hcommits with
  | full hlogged hprefix hfull => cases hok
  | @done new₂ w₂ e₃ hready₃ hkinds₂ hdata =>
      have hdisk₂ : (Session.run [.begin, .createTable "t" [⟨"a", "INTEGER"⟩], .commit]
          (.idle store₂, d₂)).2 = e₃ := by
        change (Session.step .commit
          (Session.run [.begin, .createTable "t" [⟨"a", "INTEGER"⟩]] (.idle store₂, d₂))).2 = e₃
        rw [hcreated]
        change (Transaction.commit (tx₂, e₂)).2.2 = e₃
        rw [hcommit]
      rw [List.append_assoc] at hready₃
      have hboth : Sessions ([records ++ new] ++ [records₂ ++ new₂]) _ :=
        hfirst.ended hopen₂ (by rw [hdisk₂]; exact hready₃)
      have hid' : tx.txId = ⟨1⟩ := eq_of_beq hid
      have hid₂' : tx₂.txId = ⟨1⟩ := eq_of_beq hid₂
      rw [hid'] at hkinds
      rw [hid₂'] at hkinds₂
      obtain ⟨page, hpage⟩ : ∃ page, page ∈ tx₂.stagedPages := by
        cases hpages : tx₂.stagedPages with
        | nil =>
            rw [hpages] at hstaged
            cases hstaged
        | cons page pages => exact ⟨page, List.mem_cons_self⟩
      refine ⟨records ++ new, records₂ ++ new₂, _, hboth, ?_, ?_, page.id, page, ?_⟩
      · rw [kindsOf_append, hkinds]
        simp
      · rw [kindsOf_append, hkinds₂]
        simp
      · rw [kindsOf_append, hkinds₂]
        exact List.mem_append_right _ (List.mem_append_left _ (List.mem_map.2 ⟨page, hpage, rfl⟩))

theorem not_idsKeptApart {first second : List WalRecord} (haborted : .abortTx txId ∈ kindsOf first)
    (hcommitted : .commitTx txId ∈ kindsOf second)
    (himage : .pageImage txId pageId image ∈ kindsOf second) : ¬ IdsKeptApart [first, second] := by
  intro hapart
  obtain ⟨record, hrecord, hkind⟩ := List.mem_map.1 himage
  have hnone := (hapart second (by simp) record hrecord txId pageId image hkind).1
    (mem_committedIds.2 hcommitted)
  exact hnone first (by simp) (mem_abortedIds.2 haborted)

theorem sessions_redo_instances_iff_two : ∃ parts d, Sessions parts d ∧ ¬ IdsKeptApart parts ∧
    (RedoesInstances parts ↔ IdsKeptApart parts) := by
  obtain ⟨first, second, d, hsessions, haborted, hcommitted, pageId, image, himage⟩ := two_sessions
  exact ⟨_, d, hsessions, not_idsKeptApart haborted hcommitted himage,
    sessions_redo_instances_iff hsessions⟩

/-- The committed table is lost, because the session before has rolled back a transaction with
the same id. -/
theorem committed_instance_not_redone : ∃ parts d, Sessions parts d ∧ ¬ RedoesInstances parts := by
  obtain ⟨first, second, d, hsessions, haborted, hcommitted, pageId, image, himage⟩ := two_sessions
  refine ⟨_, d, hsessions, fun hredoes => not_idsKeptApart haborted hcommitted himage ?_⟩
  exact (redoesInstances_iff hsessions.restartable.valid).1 hredoes

end Rdbms
