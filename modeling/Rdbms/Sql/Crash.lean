import Rdbms.Recovery.Survival
import Rdbms.Sql.Durable
import Rdbms.Sql.Stops
import Rdbms.Tx.Paths

/-!
# Statements and machines that stop

Statements are executed one after the other, and the machine stops at any operation on the
disk. After recovery and opening, the database has the rows of the first of the statements:
of all that have completed, and perhaps of the one in which the machine has stopped.
-/

namespace Rdbms

open Library Disk ByteFile

namespace Sql

variable {host : Host} {base : ByteFile} {records : List WalRecord} {logs : List TxLog}
  {book : List (String × List Value)}

/-! ## On the disk without faults -/

/-- The store has been opened on an empty log and has kept its two files in step. -/
structure Kept (base : ByteFile) (records : List WalRecord) (logs : List TxLog)
    (s : TransactionalStore FileId × Disk) : Prop where
  found : ∃ pages, Represents base pages
  mirrors : Mirrors base records logs (.idle s.1, s.2)
  good : (Session.idle s.1).Good

/-- Opening changes the data file only where it looks for the catalog. -/
theorem data_of_open {store : TransactionalStore FileId} {c : Catalog} {d₀ d e : Disk}
    (hload : Catalog.loadOrBootstrap dataFile d₀ = (.ok c, e))
    (hopen : openTransactionalStore .data .wal d₀ = (.ok store, d)) : d.data = e.data := by
  obtain ⟨catalogStore, u, hcatalog, h⟩ := Exec.bind_eq_ok.1 hopen
  obtain ⟨w, u', hwriter, h⟩ := Exec.bind_eq_ok.1 h
  obtain ⟨len, v, hlen, hwriter⟩ := Exec.bind_eq_ok.1 hwriter
  obtain ⟨catalog, v', hload', hcatalog⟩ := Exec.bind_eq_ok.1 hcatalog
  cases hwriter
  cases hcatalog
  cases h
  rw [show (⟨.data⟩ : PageFile FileId) = dataFile from rfl, hload] at hload'
  cases hload'
  exact ((len_onlyReads .wal).rel hlen).files.data

theorem Kept.opened {store : TransactionalStore FileId} {d : Disk}
    (hopen : openTransactionalStore .data .wal fresh = (.ok store, d)) :
    Kept d.data [] [] (store, d) := by
  refine ⟨?_, mirrors_open fresh_faultFree rfl rfl hopen, open_good hopen⟩
  obtain ⟨page, e, hpage, hload, -, hdata, -⟩ := loadOrBootstrap_of_empty fresh_faultFree rfl
  have hvalid := Catalog.toPage_validAs hpage
  rw [data_of_open hload hopen, hdata, hvalid.number]
  exact ⟨_, (represents_empty rfl).putPage hvalid fits_catalogPage⟩

/-- A statement keeps the files in step. -/
theorem Kept.runs {s : TransactionalStore FileId × Disk} (h : Kept base records logs s)
    (host : Host) (sql : String) (params : List Value) : ∃ new logs',
      Kept base (records ++ new) logs' (execute host sql params s).2 ∧
      ∀ c ∈ attempts logs, .commitTx c.1 ∉ kindsOf new := by
  obtain ⟨calls, -, hrun⟩ := execute_makes host sql params s
  obtain ⟨new, logs', hmirrors, -, hnew⟩ := h.mirrors.run h.good calls
  have hgood := (Session.run_continues h.good h.mirrors.history calls).1
  rw [hrun] at hmirrors hgood
  exact ⟨new, logs', ⟨h.found, hmirrors, hgood⟩, hnew⟩

theorem Reached.kept {s : TransactionalStore FileId × Disk} (h : Reached host s book) :
    ∃ base records logs, Kept base records logs s := by
  induction h with
  | opened hopen => exact ⟨_, [], [], Kept.opened hopen⟩
  | execute h sql params pageIds ih =>
      obtain ⟨base, records, logs, hkept⟩ := ih
      obtain ⟨new, logs', hkept', -⟩ := hkept.runs _ sql params
      exact ⟨base, _, logs', hkept'⟩

/-- The images in the log of a later store are small, and so are those in this one. -/
theorem Kept.smallRecords {s : TransactionalStore FileId × Disk} (h : Kept base records logs s)
    (texts : List (String × List Value)) (hsmall : PageIdsSmall (executeAll host texts s).2) :
    SmallRecords records := by
  induction texts generalizing s records logs with
  | nil => exact hsmall.smallRecords h.mirrors.ready
  | cons text texts ih =>
      obtain ⟨new, logs', h', -⟩ := h.runs host text.1 text.2
      exact (smallRecords_append.1 (ih h' hsmall)).1

/-! ## One statement -/

section One

variable {store : TransactionalStore FileId} {d : Disk}

/-- The machine may stop while the statement is executed. Then a pass over what is left of
the log puts back what the session had before, unless the statement has returned, or what
it has after the statement on the disk without faults. -/
theorem Kept.stops (h : Kept base records logs (store, d.healed)) (hd : CrashOnly d) (host : Host)
    (sql : String) (params : List Value) : ∃ all logs' store',
      History base [] all logs' store' (execute host sql params (store, d)).2.2 ∧
      Advances d (execute host sql params (store, d)).2.2 ∧
      ∀ k, (execute host sql params (store, d)).2.2.walSynced ≤ (encodeLog (all.take k)).length →
        (redone (all.take k) = redone records ∧
          ∀ a, (execute host sql params (store, d)).1 ≠ .ok a) ∨
        ∃ new logs'', Kept base (records ++ new) logs'' (execute host sql params (store, d.healed)).2 ∧
          redone (all.take k) = redone (records ++ new) := by
  have hbefore : Session.HasHistory base [] records logs (.idle store, d) :=
    History.of_healed h.mirrors.history hd
  obtain ⟨calls, hscript, hrun⟩ := execute_makes host sql params (store, d)
  obtain ⟨-, added, logs', hafter, htried⟩ := Session.run_continues h.good hbefore calls
  have hadvances := Session.run_advances h.good hbefore calls
  rw [hrun] at hafter hadvances
  obtain ⟨new, logs'', hkept, hnew⟩ := h.runs host sql params
  refine ⟨records ++ added, logs', _, hafter, hadvances, fun k hcover => ?_⟩
  have hcut : (∀ c ∈ attempts logs, .commitTx c.1 ∉ kindsOf added) →
      redone ((records ++ added).take k) = redone records ∨
        redone ((records ++ added).take k) = redone (records ++ added) ∧
          ∃ txId, .commitTx txId ∈ kindsOf added := fun hadded =>
    redone_cut hbefore hafter htried hscript.length_commits h.mirrors.durable hadded
      (hadvances.synced.trans hcover)
  cases execute_fares h.good hbefore.wal sql params with
  | @unmarked new' w hlog hmarkers hfailed =>
      have hsame : added = new' := List.append_cancel_left (walAt_unique hlog hafter.wal rfl)
      subst hsame
      refine Or.inl ⟨?_, hfailed⟩
      rcases hcut fun c _ => hmarkers c.1 with hold | ⟨-, txId, hmem⟩
      · exact hold
      · exact absurd hmem (hmarkers txId)
  | looked hcrashed hcalm =>
      have hadded : added = [] := List.append_right_eq_self.1
        (walAt_unique hbefore.wal hafter.wal hcrashed.files.wal)
      have hnone : new = [] := List.append_right_eq_self.1
        (walAt_unique h.mirrors.ready.wal hkept.mirrors.ready.wal hcalm.files.wal)
      subst hadded hnone
      refine Or.inr ⟨[], logs'', hkept, ?_⟩
      rcases hcut (fun c _ hmem => by cases hmem) with hold | ⟨-, txId, hmem⟩
      · exact hold.trans (by rw [List.append_nil])
      · cases hmem
  | logged hwal hsynced =>
      have hsame : new = added :=
        List.append_cancel_left (walAt_unique hafter.wal hkept.mirrors.ready.wal hwal)
      subst hsame
      rcases hcut hnew with hold | ⟨hall, -⟩
      · by_cases hreturned : ∃ a, (execute host sql params (store, d)).1 = .ok a
        · obtain ⟨a, ha⟩ := hreturned
          refine Or.inr ⟨new, logs'', hkept, ?_⟩
          rw [hsynced a ha, hafter.wal.bytes] at hcover
          have hwhole : (records ++ new).take k = records ++ new := take_eq_of_length_le hcover
          rw [hwhole]
        · push Not at hreturned
          exact Or.inl ⟨hold, hreturned⟩
      · exact Or.inr ⟨new, logs'', hkept, hall⟩

end One

/-! ## Recovery -/

/-- Recovery returns, opening returns after it, and the store then has the catalog and
serves the book. -/
def Restored (host : Host) (r : Disk) (c : Catalog) (book : List (String × List Value)) : Prop :=
  ∃ report e store e', recoverPageFile ⟨FileId.data⟩ .wal r = (.ok ⟨⟨.data⟩, report⟩, e) ∧
    openTransactionalStore .data .wal e = (.ok store, e') ∧ store.store.catalog = c ∧
    Serves host (store, e') book

/-- What is left behind is restored to a store whose pages the rest of the log puts back. -/
theorem Kept.restored {s : TransactionalStore FileId × Disk} {all : List WalRecord}
    {logs' : List TxLog} {store' : TransactionalStore FileId} {d r : Disk} {k : Nat}
    (h : Kept base records logs s) (hsound : Sound host s book) (hsmall : SmallRecords records)
    (hcrash : History base [] all logs' store' d) (hlong : base.bytes.length ≤ d.data.bytes.length)
    (hredone : redone (all.take k) = redone records) (hr : Leaves d (all.take k) r) :
    Restored host r s.1.store.catalog book := by
  obtain ⟨pages, hbase⟩ := h.found
  obtain ⟨report, e, hrecover, hfree, hbytes, hsynced, hpages⟩ :=
    h.mirrors.recover_leaves hbase hsmall hcrash hlong hredone hr
  obtain ⟨store, e', hopen, hsound', hcatalog⟩ :=
    hsound.opens hfree hbytes (hcrash.wal.log.take k) hsynced hpages
  exact ⟨report, e, store, e', hrecover, hopen, hcatalog, hsound'.serves⟩

/-! ## All statements -/

/-- The rows that the texts put into tables, one text after the other. -/
def insertedAll (host : Host) : List (String × List Value) → TransactionalStore FileId × Disk →
    List (String × List Value)
  | [], _ => []
  | text :: texts, s =>
      inserted host text.1 text.2 s ++ insertedAll host texts (execute host text.1 text.2 s).2

/-- Every statement that completes is among the first `n` texts. -/
def CompleteWithin (host : Host) (texts : List (String × List Value))
    (s : TransactionalStore FileId × Disk) (n : Nat) : Prop :=
  ∀ i text count, texts[i]? = some text →
    (execute host text.1 text.2 (executeAll host (texts.take i) s)).1 =
      .ok (.statementComplete count) → i < n

section All

variable {texts : List (String × List Value)} {text : String × List Value}
  {s : TransactionalStore FileId × Disk} {store : TransactionalStore FileId} {d : Disk}

theorem completeWithin_cons {n : Nat}
    (hfirst : ∀ count, (execute host text.1 text.2 s).1 = .ok (.statementComplete count) → 0 < n)
    (hrest : CompleteWithin host texts (execute host text.1 text.2 s).2 (n - 1)) :
    CompleteWithin host (text :: texts) s n := by
  intro i text' count hi hrun
  cases i with
  | zero =>
      cases hi
      exact hfirst count hrun
  | succ i =>
      have hlt := hrest i text' count hi hrun
      omega

/-- Texts do nothing to the files of a machine that has stopped. -/
theorem executeAll_of_stopped (hs : CrashOnly s.2 ∧ HasStopped s.2) :
    (CrashOnly (executeAll host texts s).2 ∧ HasStopped (executeAll host texts s).2) ∧
      SameFiles s.2 (executeAll host texts s).2 := by
  induction texts generalizing s with
  | nil => exact ⟨hs, SameFiles.refl s.2⟩
  | cons text texts ih =>
      obtain ⟨hstopped, hkeeps⟩ := (execute_lockstep host text.1 text.2).stays s hs
      obtain ⟨hstopped', hkeeps'⟩ := ih hstopped
      exact ⟨hstopped', SameFiles.trans hkeeps hkeeps'⟩

theorem completeWithin_of_stopped (hs : CrashOnly s.2 ∧ HasStopped s.2) (n : Nat) :
    CompleteWithin host texts s n := by
  intro i text count _ hrun
  obtain ⟨⟨hcrash, hstopped⟩, -⟩ := @executeAll_of_stopped host (texts.take i) s hs
  exact absurd hrun (execute_of_stopped hcrash hstopped)

/-- A statement in which the machine may stop has its effect as a whole, or none, and none
only if it has not returned. -/
theorem Kept.survives_one (h : Kept base records logs (store, d.healed)) (hd : CrashOnly d)
    (hsound : Sound host (store, d.healed) book) (hlong : base.bytes.length ≤ d.data.bytes.length)
    (hsmall : PageIdsSmall (execute host text.1 text.2 (store, d.healed)).2.2) :
    ∃ all w, WalAt all w (execute host text.1 text.2 (store, d)).2.2 ∧
      ∀ k r, Leaves (execute host text.1 text.2 (store, d)).2.2 (all.take k) r → ∃ n ≤ 1,
        (∀ a, (execute host text.1 text.2 (store, d)).1 = .ok a → 0 < n) ∧
        Restored host r (executeAll host ([text].take n) (store, d.healed)).1.store.catalog
          (book ++ insertedAll host ([text].take n) (store, d.healed)) := by
  obtain ⟨all, logs', store', hhist, hadvances, hcut⟩ := h.stops hd host text.1 text.2
  have hlong' := hlong.trans hadvances.data
  refine ⟨all, store'.wal, hhist.wal, fun k r hr => ?_⟩
  have hcover := hr.covers
  rw [hr.log] at hcover
  rcases hcut k hcover with ⟨hold, hfailed⟩ | ⟨new, logs'', hkept, hnew⟩
  · have hsmall' : SmallRecords records := @Kept.smallRecords host _ _ _ _ h [text] hsmall
    refine ⟨0, Nat.zero_le 1, fun a ha => absurd ha (hfailed a), ?_⟩
    rw [List.take_zero, insertedAll, List.append_nil]
    exact h.restored hsound hsmall' hhist hlong' hold hr
  · have hsmall' : SmallRecords (records ++ new) := hsmall.smallRecords hkept.mirrors.ready
    refine ⟨1, le_rfl, fun _ _ => Nat.one_pos, ?_⟩
    rw [List.take_succ_cons, List.take_zero, insertedAll, insertedAll, List.append_nil]
    exact hkept.restored (hsound.execute text.1 text.2 hsmall) hsmall' hhist hlong' hnew hr

/-- The statements up to the one in which the machine stops, by induction on the texts. -/
theorem Kept.survives (h : Kept base records logs (store, d.healed)) (hd : CrashOnly d)
    (hsound : Sound host (store, d.healed) book) (hlong : base.bytes.length ≤ d.data.bytes.length)
    (hsmall : PageIdsSmall (executeAll host texts (store, d.healed)).2) :
    ∃ all, Leaves (executeAll host texts (store, d)).2 all
        (executeAll host texts (store, d)).2.healed ∧
      ∀ k r, Leaves (executeAll host texts (store, d)).2 (all.take k) r → ∃ n ≤ texts.length,
        CompleteWithin host texts (store, d) n ∧
        Restored host r (executeAll host (texts.take n) (store, d.healed)).1.store.catalog
          (book ++ insertedAll host (texts.take n) (store, d.healed)) := by
  induction texts generalizing store d records logs book with
  | nil =>
      have hbefore : History base [] records logs store d := h.mirrors.history.of_healed hd
      refine ⟨records, leaves_all hbefore.wal, fun k r hr => ⟨0, le_rfl, ?_, ?_⟩⟩
      · intro i text count hi
        cases hi
      · have hcover := hr.covers
        rw [hr.log] at hcover
        have hredone := redone_take_of_durable hbefore h.mirrors.durable hcover
        rw [List.take_nil, insertedAll, List.append_nil]
        exact h.restored hsound (h.smallRecords [] hsmall) hbefore hlong hredone hr
  | cons text texts ih =>
      obtain ⟨new, logs', hkept, -⟩ := h.runs host text.1 text.2
      have hsmall' := pageIdsSmall_of_ready hkept.mirrors.ready (hkept.smallRecords texts hsmall)
      obtain ⟨all, w, hat, hone⟩ := h.survives_one hd hsound hlong hsmall'
      have hsound' := hsound.execute text.1 text.2 hsmall'
      have hadvances : Advances d (execute host text.1 text.2 (store, d)).2.2 := by
        obtain ⟨-, -, -, -, hadvances, -⟩ := h.stops hd host text.1 text.2
        exact hadvances
      rcases hrun : execute host text.1 text.2 (store, d) with ⟨result, store₁, d₁⟩
      have hrest : executeAll host (text :: texts) (store, d) = executeAll host texts (store₁, d₁) := by
        rw [executeAll, List.foldl_cons, hrun]
        rfl
      rw [hrun] at hat hone hadvances
      rw [hrest]
      by_cases hstopped : HasStopped d₁
      · -- the other texts change nothing any more
        have hs : CrashOnly d₁ ∧ HasStopped d₁ := ⟨hat.crashOnly, hstopped⟩
        obtain ⟨⟨hcrash, hstopped'⟩, hsame⟩ := @executeAll_of_stopped host texts (store₁, d₁) hs
        refine ⟨all, leaves_all (hat.of_sameFiles hsame fun _ => hstopped'.down hcrash), fun k r hr => ?_⟩
        obtain ⟨n, hn, hreturned, hrestored⟩ := hone k r (hr.congr hsame)
        refine ⟨n, hn.trans (Nat.le_add_left 1 _), ?_, ?_⟩
        · refine completeWithin_cons (fun count hcount => ?_) ?_
          · rw [hrun] at hcount
            exact hreturned _ hcount
          · rw [hrun]
            exact completeWithin_of_stopped hs (n - 1)
        · have htake : (text :: texts).take n = [text].take n := by
            rcases Nat.le_one_iff_eq_zero_or_eq_one.1 hn with rfl | rfl
            · rfl
            · rfl
          rw [htake]
          exact hrestored
      · -- the statement has gone as on the disk without faults
        obtain ⟨-, hcrash, hcalm⟩ :=
          healed_of_lockstep (execute_lockstep host text.1 text.2) hd hrun hstopped
        have hsmall₁ : PageIdsSmall
            (executeAll host texts (execute host text.1 text.2 (store, d.healed)).2).2 := hsmall
        rw [hcalm] at hkept hsound' hsmall₁
        obtain ⟨all', hleaves, hrestores⟩ := ih hkept hcrash hsound' (hlong.trans hadvances.data) hsmall₁
        refine ⟨all', hleaves, fun k r hr => ?_⟩
        obtain ⟨n, hn, hcomplete, hrestored⟩ := hrestores k r hr
        refine ⟨n + 1, Nat.succ_le_succ hn, ?_, ?_⟩
        · refine completeWithin_cons (fun _ _ => Nat.succ_pos n) ?_
          rw [hrun]
          exact hcomplete
        · rw [List.take_succ_cons, insertedAll, executeAll, List.foldl_cons, ← executeAll, hcalm,
            ← List.append_assoc]
          exact hrestored

/-- Statements are executed one after the other, and the machine stops at any operation on
the disk. The log then consists of some records; whatever prefix of them is left that has
what was synced, and whatever has become of the pages that a pass over this prefix puts
back, recovery and opening return, and the database is the one after the first `n` of the
statements on a disk without faults, every statement that has completed among them. -/
theorem statements_survive_crash (h : Reached host (store, d.healed) book) (hd : CrashOnly d)
    (texts : List (String × List Value))
    (hsmall : PageIdsSmall (executeAll host texts (store, d.healed)).2) :
    ∃ records, Leaves (executeAll host texts (store, d)).2 records
        (executeAll host texts (store, d)).2.healed ∧
      ∀ k r, Leaves (executeAll host texts (store, d)).2 (records.take k) r → ∃ n ≤ texts.length,
        CompleteWithin host texts (store, d) n ∧
        Restored host r (executeAll host (texts.take n) (store, d.healed)).1.store.catalog
          (book ++ insertedAll host (texts.take n) (store, d.healed)) := by
  obtain ⟨base, records, logs, hkept⟩ := h.kept
  have hrecords := hkept.smallRecords texts hsmall
  have hfits := hkept.mirrors.fits hrecords records.length
  rw [List.take_length] at hfits
  refine hkept.survives hd h.sound ?_ hsmall
  rw [show d.data = d.healed.data from rfl, hkept.mirrors.data hrecords]
  exact length_le_putPages hfits

/-- The machine stops when the CREATE INDEX has written one page of two. -/
theorem statements_survive_crash_one_row : ∃ store d texts n,
    openTransactionalStore .data .wal fresh = (.ok store, d) ∧
    texts = indexedTexts.map (fun sql => (sql, [])) ∧ n ≤ texts.length ∧
    CompleteWithin plainHost texts (store, { d with faults := crashAfter 25 }) n ∧
    Restored plainHost
      (executeAll plainHost texts (store, { d with faults := crashAfter 25 })).2.healed
      (executeAll plainHost (texts.take n) (store, d)).1.store.catalog
      ([] ++ insertedAll plainHost (texts.take n) (store, d)) := by
  obtain ⟨store, d, s, hopen, hrun, hlast, -⟩ := indexedTexts_run
  have hhealed : d = ({ d with faults := crashAfter 25 } : Disk).healed := by
    have hnone : d.faults = fun _ => none := funext (open_faultFree fresh_faultFree hopen)
    cases d
    cases hnone
    rfl
  have hreached : Reached plainHost (store, ({ d with faults := crashAfter 25 } : Disk).healed) [] := by
    rw [← hhealed]
    exact Reached.opened hopen
  have hsmall : PageIdsSmall (executeAll plainHost (indexedTexts.map fun sql => (sql, []))
      (store, ({ d with faults := crashAfter 25 } : Disk).healed)).2 := by
    rw [← hhealed, hrun]
    exact hlast.tidy.pageIds
  obtain ⟨records, hall, hrestores⟩ :=
    statements_survive_crash hreached (crashOnly_crashAfter rfl) _ hsmall
  rw [← hhealed] at hrestores
  obtain ⟨n, hn, hcomplete, hrestored⟩ := hrestores records.length _ (by rwa [List.take_length])
  exact ⟨store, d, _, n, hopen, rfl, hn, hcomplete, hrestored⟩

end All

end Sql

end Rdbms
