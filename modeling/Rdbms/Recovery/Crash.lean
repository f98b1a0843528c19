import Rdbms.Recovery.Replay

/-!
# Crash recovery of one session

A session starts on an empty log and runs until the machine stops. Whatever
prefix of the log survives, as long as it has everything that was synced, and
whatever has become of the pages that the log can put back, recovery ends with the
pages of exactly those transactions whose commit marker has survived.
-/

namespace Rdbms

open Library Disk ByteFile

/-- The record at the end of a synced part lies in every prefix that covers it. -/
theorem mem_take_of_length_le {front back : List WalRecord} {record : WalRecord} {k : Nat}
    (h : (encodeLog (front ++ [record])).length ≤
      (encodeLog ((front ++ record :: back).take k)).length) :
    record ∈ (front ++ record :: back).take k := by
  by_cases hk : front.length < k
  · rw [List.take_append, List.take_of_length_le (by omega)]
    refine List.mem_append_right _ ?_
    rw [show k - front.length = (k - front.length - 1) + 1 by omega, List.take_succ_cons]
    exact List.mem_cons_self
  · exfalso
    have hle : (front ++ record :: back).take k <+: front := by
      rw [List.take_append_of_le_length (by omega)]
      exact List.take_prefix k front
    obtain ⟨rest, hrest⟩ := hle
    have hlen := congrArg (fun records => (encodeLog records).length) hrest
    have hpos := List.length_pos_of_ne_nil (bytes_ne_nil record)
    simp only [encodeLog_append, List.length_append] at hlen h
    simp only [encodeLog, List.flatMap_cons, List.flatMap_nil, List.length_append,
      List.length_nil] at hlen h
    omega

theorem LogFrom.take {offset : Nat} {records : List WalRecord} (h : LogFrom offset records)
    (k : Nat) : LogFrom offset (records.take k) := by
  have hsplit := List.take_append_drop k records
  rw [← hsplit] at h
  exact (logFrom_append.1 h).1

/-- A session that has just been opened on an empty log. -/
theorem open_history {d₀ d : Disk} {store : TransactionalStore FileId}
    (hcrash : CrashOnly d₀) (hwal : d₀.wal.bytes = []) (hsynced : d₀.walSynced = 0)
    (hopen : openTransactionalStore .data .wal d₀ = (.ok store, d)) :
    History d.data [] [] [] store d where
  wal := open_walAt hcrash hwal (logFrom_nil 0) (by rw [hsynced]; exact Nat.zero_le _) hopen
  kinds := rfl
  data n hn := absurd rfl hn
  ok := by simp
  nodup := List.nodup_nil
  below := by simp

/-- The pages of the commits whose markers are among the first `k` records. -/
def survivingPages (records : List WalRecord) (k : Nat) (tried : List (TxId × List Page)) :
    List Page := committedPages (committedIds (records.take k)) tried

section Prefix

variable {base : ByteFile} {records : List WalRecord} {logs : List TxLog}
  {store : TransactionalStore FileId} {d : Disk} {k : Nat}

theorem mem_attempts {c : TxId × List Page} :
    c ∈ attempts logs ↔ ∃ t ∈ logs, t.txId = c.1 ∧ t.attempt = some c.2 := by
  obtain ⟨txId, pages⟩ := c
  rw [attempts, List.mem_filterMap]
  refine exists_congr fun t => and_congr_right fun _ => ?_
  cases t.attempt <;> simp [and_comm]

theorem mem_survivingPages {page : Page} :
    page ∈ survivingPages records k (attempts logs) ↔
      ∃ t ∈ logs, page ∈ t.pages ∧ .commitTx t.txId ∈ kindsOf (records.take k) := by
  simp only [survivingPages, committedPages, List.mem_flatMap, List.mem_filter, mem_attempts,
    decide_eq_true_eq, mem_committedIds]
  constructor
  · rintro ⟨c, ⟨⟨t, ht, htxId, hattempt⟩, hcommit⟩, hpage⟩
    exact ⟨t, ht, by rwa [TxLog.pages, hattempt], htxId ▸ hcommit⟩
  · rintro ⟨t, ht, hpage, hcommit⟩
    cases hattempt : t.attempt with
    | none =>
        rw [TxLog.pages, hattempt] at hpage
        cases hpage
    | some pages =>
        rw [TxLog.pages, hattempt] at hpage
        exact ⟨(t.txId, pages), ⟨⟨t, ht, rfl, hattempt⟩, hcommit⟩, hpage⟩

/-- A pass over a prefix puts back the surviving pages. -/
theorem replayed_take (h : History base [] records logs store d) (k : Nat) :
    replayed (records.take k) = withIds (survivingPages records k (attempts logs)) := by
  rw [replayed_eq, survivingPages]
  refine filterMap_log h.ok h.nodup ?_ (fun t _ => mem_committedIds) (fun t _ => mem_abortedIds)
  rw [← h.kinds]
  exact (List.take_prefix k records).map WalRecord.kind

theorem validAs_of_surviving (h : History base [] records logs store d) {page : Page}
    (hpage : page ∈ survivingPages records k (attempts logs)) : page.ValidAs page.id := by
  obtain ⟨t, ht, hpage, -⟩ := mem_survivingPages.1 hpage
  cases hattempt : t.attempt with
  | none =>
      rw [TxLog.pages, hattempt] at hpage
      cases hpage
  | some pages =>
      rw [TxLog.pages, hattempt] at hpage
      obtain ⟨pageId, hvalid⟩ := (h.ok t ht).valid pages hattempt page hpage
      rw [hvalid.id]
      exact hvalid

/-- A page that has changed is one of a durable transaction, whose marker has survived. -/
theorem window_of_not_surviving (h : History base [] records logs store d) {n : Nat}
    (hcover : d.walSynced ≤ (encodeLog (records.take k)).length)
    (hn : ∀ page ∈ survivingPages records k (attempts logs), page.number ≠ n) :
    d.data.window n = base.window n := by
  by_contra hchanged
  obtain ⟨t, ht, ⟨page, hpage, hnumber⟩, front, lsn, back, rfl, hlen⟩ := h.data n hchanged
  refine hn page (mem_survivingPages.2 ⟨t, ht, hpage, ?_⟩) hnumber
  exact List.mem_map.2 ⟨_, mem_take_of_length_le (hlen.trans hcover), rfl⟩

end Prefix

/-- Every page after recovery: the last surviving version of it, or what was there when
the session was opened. -/
def RecoveredTo (base f : ByteFile) (pages : List Page) : Prop :=
  ∀ n, (∀ page, lastPage n pages = some page → f.Holds n page) ∧
    (lastPage n pages = none → f.window n = base.window n)

/-- Recovery from any prefix of the log of a session. -/
theorem recover_take {base : ByteFile} {records : List WalRecord} {logs : List TxLog}
    {store : TransactionalStore FileId} {d r : Disk} {k : Nat}
    (h : History base [] records logs store d)
    (hfits : ∀ page ∈ survivingPages records k (attempts logs), Fits page.number)
    (hr : FaultFree r) (hwal : r.wal.bytes = encodeLog (records.take k))
    (hcover : d.walSynced ≤ r.wal.bytes.length)
    (hsurvive : ∀ n, (∀ page ∈ survivingPages records k (attempts logs), page.number ≠ n) →
      r.data.window n = d.data.window n) :
    ∃ report e, recoverPageFile ⟨FileId.data⟩ .wal r = (.ok ⟨⟨.data⟩, report⟩, e) ∧
      RecoveredTo base e.data (survivingPages records k (attempts logs)) := by
  have hlog : LogFrom 0 (records.take k) := h.wal.log.take k
  have hredo : ∀ image ∈ replayed (records.take k), Redoable image := by
    rw [replayed_take h]
    intro image himage
    obtain ⟨page, hpage, rfl⟩ := List.mem_map.1 himage
    exact ⟨validAs_of_surviving h hpage, hfits page hpage⟩
  obtain ⟨e, he, hdata, -⟩ := recoverPageFile_eq hr hwal hlog hredo
  rw [replayed_take h, withIds, List.map_map, Function.comp_def, List.map_id'] at hdata
  refine ⟨_, e, he, fun n => ⟨fun page hlast => ?_, fun hnone => ?_⟩⟩
  · rw [hdata]
    exact holds_putPages hfits hlast
  · have hn := lastPage_eq_none.1 hnone
    rw [hwal] at hcover
    rw [hdata, window_putPages_of_not_mem hfits hn, hsurvive n hn,
      window_of_not_surviving h hcover hn]

/-- What a session on an empty log has logged at any moment. -/
theorem run_history {d₀ d : Disk} {store : TransactionalStore FileId} (hcrash : CrashOnly d₀)
    (hwal : d₀.wal.bytes = []) (hsynced : d₀.walSynced = 0)
    (hopen : openTransactionalStore .data .wal d₀ = (.ok store, d)) (calls : List Call) :
    ∃ records logs, attempts logs = Session.commits calls (.idle store, d) ∧
      History d.data [] records logs (Session.run calls (.idle store, d)).1.handle
        (Session.run calls (.idle store, d)).2 := by
  have hstart : Session.HasHistory d.data [] [] [] (.idle store, d) :=
    open_history hcrash hwal hsynced hopen
  obtain ⟨-, records, logs, hend, htried⟩ :=
    Session.run_continues (open_good hopen) hstart calls
  exact ⟨records, logs, htried, hend.history⟩

/-- A session on an empty log runs until the machine stops, at any operation. Recovery
from any prefix of its log that covers what was synced, on a data file in which any page
that the prefix can put back may be damaged, returns and leaves in every page the last
version of it by a transaction whose commit marker has survived, or else what the session
found there. -/
theorem crash_recovery {d₀ d : Disk} {store : TransactionalStore FileId} (hcrash : CrashOnly d₀)
    (hwal : d₀.wal.bytes = []) (hsynced : d₀.walSynced = 0)
    (hopen : openTransactionalStore .data .wal d₀ = (.ok store, d)) (calls : List Call)
    (hsmall : ∀ c ∈ Session.commits calls (.idle store, d), ∀ page ∈ c.2, page.number < 2 ^ 51) :
    ∃ records, (Session.run calls (.idle store, d)).2.wal.bytes = encodeLog records ∧
      ∀ k (r : Disk), FaultFree r → r.wal.bytes = encodeLog (records.take k) →
        (Session.run calls (.idle store, d)).2.walSynced ≤ r.wal.bytes.length →
        (∀ n, (∀ page ∈ survivingPages records k (Session.commits calls (.idle store, d)),
            page.number ≠ n) →
          r.data.window n = (Session.run calls (.idle store, d)).2.data.window n) →
        ∃ report e, recoverPageFile ⟨FileId.data⟩ .wal r = (.ok ⟨⟨.data⟩, report⟩, e) ∧
          RecoveredTo d.data e.data
            (survivingPages records k (Session.commits calls (.idle store, d))) := by
  have hfits : ∀ c ∈ Session.commits calls (.idle store, d), ∀ page ∈ c.2, Fits page.number :=
    fun c hc page hpage => lt_of_le_of_lt (hsmall c hc page hpage) (by decide)
  obtain ⟨records, logs, hattempts, hhist⟩ := run_history hcrash hwal hsynced hopen calls
  rw [← hattempts] at hfits ⊢
  refine ⟨records, hhist.wal.bytes, ?_⟩
  intro k r hr hrwal hcover hsurvive
  refine recover_take hhist ?_ hr hrwal hcover hsurvive
  intro page hpage
  obtain ⟨c, hc, hpage⟩ := List.mem_flatMap.1 hpage
  exact hfits c (List.mem_filter.1 hc).1 page hpage

/-- A page that a session has changed is one that its whole log puts back. -/
theorem survives_of_changed {d₀ d : Disk} {store : TransactionalStore FileId}
    (hcrash : CrashOnly d₀) (hwal : d₀.wal.bytes = []) (hsynced : d₀.walSynced = 0)
    (hopen : openTransactionalStore .data .wal d₀ = (.ok store, d)) (calls : List Call)
    {records : List WalRecord}
    (hbytes : (Session.run calls (.idle store, d)).2.wal.bytes = encodeLog records) {n : Nat}
    (hchanged : (Session.run calls (.idle store, d)).2.data.window n ≠ d.data.window n) :
    ∃ page ∈ survivingPages records records.length (Session.commits calls (.idle store, d)),
      page.number = n := by
  obtain ⟨all, logs, hattempts, hhist⟩ := run_history hcrash hwal hsynced hopen calls
  obtain rfl : all = records := encodeLog_injective (hhist.wal.bytes.symm.trans hbytes)
  rw [← hattempts]
  by_contra hnone
  push Not at hnone
  refine hchanged (window_of_not_surviving hhist ?_ hnone)
  rw [List.take_length, ← hbytes]
  exact hhist.wal.synced

theorem survivingPages_of_mem {records : List WalRecord} {k : Nat} {c : TxId × List Page}
    {page : Page} (h : page ∈ survivingPages records k [c]) : survivingPages records k [c] = c.2 := by
  by_cases hcommit : c.1 ∈ committedIds (records.take k)
  · simp [survivingPages, committedPages, hcommit]
  · simp [survivingPages, committedPages, hcommit] at h

/-- The machine stops when the commit of `tableCalls` has written one page of two. -/
def midCommit : Disk := { fresh with faults := crashAfter 9 }

/-- What `tableCalls` leaves then. -/
theorem tableCalls_midCommit : opened (fun store d =>
    let left := (Session.run tableCalls (.idle store, d)).2
    match Session.commits tableCalls (.idle store, d) with
    | [(_, [p, q])] =>
        p.number = 0 ∧ q.number = 1 ∧ left.data.bytes.length = pageSize ∧
          left.data.window 0 ≠ d.data.window 0
    | _ => false) (openTransactionalStore .data .wal midCommit) = true := by
  decide +kernel

/-- The second page of the commit is missing and the first one is zeros. -/
theorem crash_recovery_one_table : ∃ store d p q report e,
    openTransactionalStore .data .wal midCommit = (.ok store, d) ∧ p.number = 0 ∧ q.number = 1 ∧
    (Session.run tableCalls (.idle store, d)).2.data.bytes.length = pageSize ∧
    recoverPageFile ⟨FileId.data⟩ .wal
      (holding ((Session.run tableCalls (.idle store, d)).2.data.putPage 0 .zeroed)
        (Session.run tableCalls (.idle store, d)).2.wal fun _ => none) =
      (.ok ⟨⟨.data⟩, report⟩, e) ∧
    RecoveredTo d.data e.data [p, q] := by
  have hcrash : CrashOnly midCommit := crashOnly_crashAfter rfl
  obtain ⟨store, d, hopen, htest⟩ := of_opened tableCalls_midCommit
  split at htest
  case h_2 => cases htest
  case h_1 txId p q hcommits =>
    obtain ⟨hp, hq, hlen, hchanged⟩ := of_decide_eq_true htest
    have hsmall : ∀ c ∈ Session.commits tableCalls (.idle store, d), ∀ page ∈ c.2,
        page.number < 2 ^ 51 := by
      simp [hcommits, hp, hq]
    obtain ⟨records, hbytes, hrecovers⟩ := crash_recovery hcrash rfl rfl hopen tableCalls hsmall
    obtain ⟨all, logs, -, hhist⟩ := run_history hcrash rfl rfl hopen tableCalls
    obtain ⟨page, hpage, hnumber⟩ :=
      survives_of_changed hcrash rfl rfl hopen tableCalls hbytes hchanged
    have hothers : ∀ n, (∀ page ∈ survivingPages records records.length
        (Session.commits tableCalls (.idle store, d)), page.number ≠ n) →
        ((Session.run tableCalls (.idle store, d)).2.data.putPage 0 .zeroed).window n =
          (Session.run tableCalls (.idle store, d)).2.data.window n := fun n hn =>
      window_putPage_of_ne fits_zero fun h => hn page hpage (hnumber.trans h.symm)
    obtain ⟨report, e, hrecover, hto⟩ := hrecovers records.length
      (holding ((Session.run tableCalls (.idle store, d)).2.data.putPage 0 .zeroed)
        (Session.run tableCalls (.idle store, d)).2.wal fun _ => none)
      (fun _ => rfl) (by rw [List.take_length]; exact hbytes) hhist.wal.synced
      (by simpa only [data_holding] using hothers)
    rw [hcommits] at hto hpage
    rw [survivingPages_of_mem hpage] at hto
    exact ⟨store, d, p, q, report, e, hopen, hp, hq, hlen, hrecover, hto⟩

end Rdbms
