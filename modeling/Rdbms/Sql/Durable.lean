import Rdbms.Recovery.Reopen
import Rdbms.Sql.Answers
import Rdbms.Sql.Sessions

/-!
# Databases outlive their sessions

What statements have put into a database is still there when the files are closed and
opened again: opening reads the catalog from page 0, and the pages that it lists are the
ones that the last session has left.
-/

namespace Rdbms

open Library Disk ByteFile

/-! ## Opening the files again -/

theorem Layout.heapsNonempty {pages : PageId → Option Page} {c : Catalog} {held : List Holding}
    (h : Layout pages c held) : c.HeapsNonempty := by
  intro relation hmem pageIds hstorage
  obtain ⟨holding, hat⟩ := h.holdingAt hmem
  cases hat.occupies with
  | table hne heap =>
      cases hstorage
      exact hne
  | index tree => cases hstorage

/-- Files that are laid out as a catalog in page 0 says are opened with that catalog. -/
theorem Committed.opens {records : List WalRecord} {c : Catalog} {d : Disk} {held : List Holding}
    (hd : FaultFree d) (hbytes : d.wal.bytes = encodeLog records) (hlog : LogFrom 0 records)
    (hsynced : d.walSynced ≤ d.wal.bytes.length) (hlayout : Layout (c.only d.storedPage) c held)
    (hsaved : ∃ page, d.storedPage catalogPageId = some page ∧ c.toPage = .ok page) :
    ∃ store e, openTransactionalStore .data .wal d = (.ok store, e) ∧
      Committed records store e held ∧ store.activeWriter = false ∧ store.store.catalog = c := by
  obtain ⟨page, hstored, hpage⟩ := hsaved
  have hholds : d.HoldsCatalog c :=
    ⟨page, hstored, fun memory => Catalog.fromPage_of_toPage memory hpage hlayout.heapsNonempty⟩
  obtain ⟨e, hload, hreads⟩ := hholds.loadOrBootstrap hd
  have hlen := len_of_faultFree (hreads.faultFree hd) .wal
  have hreads' : OnlyReads e (e.record ⟨.wal, .len, true⟩) := (len_onlyReads .wal).rel hlen
  have hopen : openTransactionalStore .data .wal d =
      (.ok ⟨⟨dataFile, c⟩, ⟨.wal, ⟨⟨UInt64.ofNat (e.file .wal).bytes.length⟩⟩⟩, firstTxId.val, false⟩,
        e.record ⟨.wal, .len, true⟩) := by
    rw [openTransactionalStore, CatalogStore.open, show (⟨.data⟩ : PageFile FileId) = dataFile from rfl]
    simp only [Exec.bind_apply, hload, Exec.pure_apply, WalWriter.new, vfs_len, hlen]
  have hboth := hreads.trans hreads'
  have hready : LogReady records _ _ := ⟨open_walAt hd.crashOnly hbytes hlog hsynced hopen,
    open_faultFree hd hopen⟩
  refine ⟨_, _, hopen, ⟨hready, rfl, ?_, page, ?_, hpage⟩, rfl, rfl⟩
  · refine hlayout.mono rfl rfl (fun _ hi => hi) ?_
    intro i _ _ q hq
    rw [Catalog.only_eq_some] at hq ⊢
    exact ⟨hq.1, hboth.storedPage.trans hq.2⟩
  · exact hboth.storedPage.trans hstored

namespace Sql

variable {host : Host} {s t : TransactionalStore FileId × Disk} {book book' : List (String × List Value)}

/-- Files that hold what a sound store shows are opened as a sound store. -/
theorem Sound.opens {records : List WalRecord} {d : Disk} (h : Sound host s book) (hd : FaultFree d)
    (hbytes : d.wal.bytes = encodeLog records) (hlog : LogFrom 0 records)
    (hsynced : d.walSynced ≤ d.wal.bytes.length)
    (hpages : ∀ pageId page, s.2.storedPage pageId = some page → d.storedPage pageId = some page) :
    ∃ store e, openTransactionalStore .data .wal d = (.ok store, e) ∧ Sound host (store, e) book ∧
      store.store.catalog = s.1.store.catalog := by
  obtain ⟨records', db, ⟨⟨held, hcommitted, hshows⟩, hconsistent, -⟩, hbook⟩ := h
  have hlayout : Layout (s.1.store.catalog.only d.storedPage) s.1.store.catalog held := by
    refine hcommitted.layout.mono rfl rfl (fun _ hi => hi) ?_
    intro i _ _ page hpage
    rw [Catalog.only_eq_some] at hpage ⊢
    exact ⟨hpage.1, hpages i page hpage.2⟩
  have hsaved : ∃ page, d.storedPage catalogPageId = some page ∧
      s.1.store.catalog.toPage = .ok page := by
    obtain ⟨page, hpage, htoPage⟩ := hcommitted.saved
    exact ⟨page, hpages _ page hpage, htoPage⟩
  obtain ⟨store, e, hopen, hopened, hfree, hcatalog⟩ :=
    Committed.opens hd hbytes hlog hsynced hlayout hsaved
  refine ⟨store, e, hopen, ⟨records, db, ⟨⟨held, hopened, ?_⟩, hconsistent, hfree⟩, hbook⟩, hcatalog⟩
  rw [hcatalog]
  exact hshows

theorem Sound.reopened (h : Sound host s book) :
    ∃ store e, openTransactionalStore .data .wal s.2 = (.ok store, e) ∧ Sound host (store, e) book ∧
      store.store.catalog = s.1.store.catalog := by
  have hsound := h
  obtain ⟨records, db, ⟨⟨held, hcommitted, -⟩, -⟩, -⟩ := hsound
  exact h.opens hcommitted.log.faultFree hcommitted.log.wal.bytes hcommitted.log.wal.log
    hcommitted.log.wal.synced fun _ _ hpage => hpage

/-- The stores that statements reach from a given one; the files may be closed and opened
again between two statements. Page ids stay below 2^51. -/
inductive Follows (host : Host) (s : TransactionalStore FileId × Disk)
    (book : List (String × List Value)) :
    TransactionalStore FileId × Disk → List (String × List Value) → Prop
  | start : Follows host s book s book
  | execute {t : TransactionalStore FileId × Disk} {book' : List (String × List Value)}
      (h : Follows host s book t book') (sql : String) (params : List Value)
      (pageIds : PageIdsSmall (execute host sql params t).2.2) :
      Follows host s book (execute host sql params t).2 (book' ++ inserted host sql params t)
  | reopened {t : TransactionalStore FileId × Disk} {book' : List (String × List Value)}
      {store : TransactionalStore FileId} {d : Disk} (h : Follows host s book t book')
      (hopen : openTransactionalStore .data .wal t.2 = (.ok store, d)) :
      Follows host s book (store, d) book'

theorem Follows.sound (h : Follows host s book t book') (hs : Sound host s book) :
    Sound host t book' := by
  induction h with
  | start => exact hs
  | execute h sql params pageIds ih => exact ih.execute sql params pageIds
  | reopened h hopen ih =>
      obtain ⟨store', e, hopen', hsound, -⟩ := ih.reopened
      rw [hopen] at hopen'
      cases hopen'
      exact hsound

/-- Every SELECT over a table and existing columns gives the answer over the rows that the
book has for the table. -/
def Answers (host : Host) (s : TransactionalStore FileId × Disk) (book : List (String × List Value)) :
    Prop :=
  ∀ sql projection table selection relation,
    parseStatement host sql = .ok (.select projection table selection) →
    relation ∈ s.1.store.catalog.relations → relation.name = table → relation.kind = .table →
    ColumnsExist relation.columns projection selection →
    ∃ columns rows t, execute host sql [] s = (.ok (.query columns rows), t) ∧
      rows.Perm (query host relation.columns projection selection (bagOf table book))

/-- The files can be opened again, and the catalog is in them. -/
def Reopens (s : TransactionalStore FileId × Disk) : Prop :=
  ∃ store d, openTransactionalStore FileId.data FileId.wal s.2 = (.ok store, d) ∧
    store.store.catalog = s.1.store.catalog

/-- The store answers every SELECT, now and after any statements and openings to come, over
the rows in the book and those that are put in on the way; and it can be opened again with
its catalog at any time. -/
def Serves (host : Host) (s : TransactionalStore FileId × Disk) (book : List (String × List Value)) :
    Prop :=
  ∀ t book', Follows host s book t book' → Answers host t book' ∧ Reopens t

theorem Sound.serves (h : Sound host s book) : Serves host s book := by
  intro t book' hfollows
  have hsound := hfollows.sound h
  obtain ⟨store, d, hopen, -, hcatalog⟩ := hsound.reopened
  exact ⟨fun _ _ _ _ _ => hsound.answers, store, d, hopen, hcatalog⟩

/-- A database that statements have filled answers queries over its rows in every later
session, too. -/
theorem sessions_answer_queries (h : Reached host s book) : Serves host s book := h.sound.serves

theorem sessions_answer_queries_one_row : ∃ s, Reached plainHost s [("t", [.integer 7])] ∧
    Serves plainHost s [("t", [.integer 7])] := by
  obtain ⟨s, hreached, -⟩ := reached_indexed_row
  exact ⟨s, hreached, sessions_answer_queries hreached⟩

end Sql

end Rdbms
