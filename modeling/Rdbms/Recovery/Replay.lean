import Rdbms.Recovery.Basic
import Rdbms.Tx.History

/-!
# Replaying the log of a session

In the log of a session, every transaction has an id of its own. A pass over any
prefix of such a log puts back the pages of exactly those transactions whose
commit marker is in the prefix, and all pages of each of them.
-/

namespace Rdbms

open Library Disk ByteFile

theorem mem_committedIds {records : List WalRecord} {txId : TxId} :
    txId ∈ committedIds records ↔ .commitTx txId ∈ kindsOf records := by
  simp only [committedIds, kindsOf, List.mem_filterMap, List.mem_map]
  constructor
  · rintro ⟨record, hrecord, h⟩
    refine ⟨record, hrecord, ?_⟩
    split at h
    · cases h
      assumption
    · cases h
  · rintro ⟨record, hrecord, h⟩
    exact ⟨record, hrecord, by rw [h]⟩

theorem mem_abortedIds {records : List WalRecord} {txId : TxId} :
    txId ∈ abortedIds records ↔ .abortTx txId ∈ kindsOf records := by
  simp only [abortedIds, kindsOf, List.mem_filterMap, List.mem_map]
  constructor
  · rintro ⟨record, hrecord, h⟩
    refine ⟨record, hrecord, ?_⟩
    split at h
    · cases h
      assumption
    · cases h
  · rintro ⟨record, hrecord, h⟩
    exact ⟨record, hrecord, by rw [h]⟩

/-- The image of a record, if the transaction is among the replayed ones. -/
def imageOf (committed aborted : List TxId) : WalRecordKind → Option (PageId × Page)
  | .pageImage txId pageId image =>
      if txId ∈ committed ∧ txId ∉ aborted then some (pageId, image) else none
  | _ => none

theorem replayed_eq (records : List WalRecord) :
    replayed records =
      (kindsOf records).filterMap (imageOf (committedIds records) (abortedIds records)) := by
  rw [replayed, kindsOf, List.filterMap_map]
  refine List.filterMap_congr fun record _ => ?_
  obtain ⟨lsn, kind⟩ := record
  cases kind <;> rfl

/-- The pages with their ids. -/
def withIds (pages : List Page) : List (PageId × Page) := pages.map fun page => (page.id, page)

/-- The transaction that a record belongs to. -/
def WalRecordKind.owner : WalRecordKind → Option TxId
  | .beginTx txId => some txId
  | .pageImage txId _ _ => some txId
  | .commitTx txId => some txId
  | .abortTx txId => some txId
  | .checkpoint => none

section Segment

variable {t : TxLog} {committed aborted : List TxId} {part : List WalRecordKind}

theorem owner_imageKinds {txId : TxId} {pages : List Page} {kind : WalRecordKind}
    (h : kind ∈ imageKinds txId pages) :
    ∃ page ∈ pages, kind = .pageImage txId page.id page := by
  obtain ⟨page, hpage, rfl⟩ := List.mem_map.1 h
  exact ⟨page, hpage, rfl⟩

theorem TxLog.Ok.owner (h : t.Ok) {kind : WalRecordKind} (hkind : kind ∈ t.all) :
    kind.owner = some t.txId := by
  rcases List.mem_cons.1 hkind with rfl | hkind
  · rfl
  have hmem := h.prefix_intended.subset hkind
  rw [TxLog.intended] at hmem
  split at hmem
  · rcases List.mem_append.1 hmem with himage | hmarker
    · obtain ⟨page, -, rfl⟩ := owner_imageKinds himage
      rfl
    · rw [List.mem_singleton.1 hmarker]
      rfl
  · rw [List.mem_singleton.1 hmem]
    rfl

/-- The commit marker comes last, so a part of the transaction that has it is whole. -/
theorem TxLog.Ok.eq_of_commit (h : t.Ok) (hpart : part <+: t.all)
    (hcommit : .commitTx t.txId ∈ part) :
    ∃ pages, t.attempt = some pages ∧
      part = .beginTx t.txId :: (imageKinds t.txId pages ++ [.commitTx t.txId]) := by
  obtain ⟨rest, rfl⟩ : ∃ rest, part = .beginTx t.txId :: rest := by
    cases part with
    | nil => cases hcommit
    | cons kind rest => exact ⟨rest, by rw [(List.cons_prefix_cons.1 hpart).1]⟩
  have hmem : .commitTx t.txId ∈ rest := by simpa using hcommit
  have hpre := (List.cons_prefix_cons.1 hpart).2.trans h.prefix_intended
  cases hattempt : t.attempt with
  | none =>
      rw [TxLog.intended, hattempt] at hpre
      have := hpre.subset hmem
      simp at this
  | some pages =>
      rw [TxLog.intended, hattempt] at hpre
      refine ⟨pages, rfl, ?_⟩
      rcases List.prefix_concat_iff.1 hpre with hall | himages
      · rw [hall]
      · obtain ⟨page, -, himage⟩ := owner_imageKinds (himages.subset hmem)
        cases himage

/-- The images of a transaction that is committed and not aborted are put back. -/
theorem filterMap_imageKinds {txId : TxId} (hmem : txId ∈ committed) (hnot : txId ∉ aborted)
    (pages : List Page) :
    (imageKinds txId pages).filterMap (imageOf committed aborted) = withIds pages := by
  rw [imageKinds, List.filterMap_map, withIds, ← List.filterMap_eq_map]
  refine List.filterMap_congr fun page _ => ?_
  simp only [Function.comp_apply, imageOf, if_pos (And.intro hmem hnot)]

/-- What a pass puts back of one transaction, of which the log has a part. -/
theorem filterMap_segment (h : t.Ok) (hpart : part <+: t.all)
    (hcommitted : t.txId ∈ committed ↔ .commitTx t.txId ∈ part)
    (haborted : t.txId ∈ aborted ↔ .abortTx t.txId ∈ part) :
    part.filterMap (imageOf committed aborted) =
      if t.txId ∈ committed then withIds t.pages else [] := by
  by_cases hmem : t.txId ∈ committed
  · obtain ⟨pages, hattempt, rfl⟩ := h.eq_of_commit hpart (hcommitted.1 hmem)
    have hnot : t.txId ∉ aborted := by
      intro habort
      have := haborted.1 habort
      simp only [List.mem_cons, List.mem_append, reduceCtorEq, List.not_mem_nil, or_false,
        false_or] at this
      obtain ⟨page, -, himage⟩ := owner_imageKinds this
      cases himage
    rw [if_pos hmem, TxLog.pages, hattempt, Option.getD_some, List.filterMap_cons_none rfl,
      List.filterMap_append, List.filterMap_cons_none rfl, List.filterMap_nil, List.append_nil,
      filterMap_imageKinds hmem hnot]
  · rw [if_neg hmem]
    refine List.filterMap_eq_nil_iff.2 fun kind hkind => ?_
    have howner := h.owner (hpart.subset hkind)
    cases kind with
    | pageImage txId pageId image =>
        cases howner
        simp only [imageOf, if_neg (fun hand : _ ∧ _ => hmem hand.1)]
    | beginTx txId => rfl
    | commitTx txId => rfl
    | abortTx txId => rfl
    | checkpoint => rfl

end Segment

/-- A prefix of a log of transactions is a part of the first one and a prefix of the
others. -/
theorem prefix_flatMap_cons {t : TxLog} {logs : List TxLog} {cut : List WalRecordKind}
    (h : cut <+: (t :: logs).flatMap TxLog.all) :
    ∃ part rest, cut = part ++ rest ∧ part <+: t.all ∧ rest <+: logs.flatMap TxLog.all := by
  rw [List.flatMap_cons] at h
  rcases List.prefix_or_prefix_of_prefix h (List.prefix_append t.all _) with hle | ⟨rest, rfl⟩
  · exact ⟨cut, [], (List.append_nil _).symm, hle, List.nil_prefix⟩
  · exact ⟨t.all, rest, rfl, List.prefix_rfl, (List.prefix_append_right_inj _).1 h⟩

theorem owner_flatMap {logs : List TxLog} (hok : ∀ t ∈ logs, t.Ok) {kind : WalRecordKind}
    (h : kind ∈ logs.flatMap TxLog.all) : ∃ t ∈ logs, kind.owner = some t.txId := by
  obtain ⟨t, ht, hkind⟩ := List.mem_flatMap.1 h
  exact ⟨t, ht, (hok t ht).owner hkind⟩

/-- The commits whose transactions are among the given ones. -/
def committedPages (committed : List TxId) (tried : List (TxId × List Page)) : List Page :=
  (tried.filter fun c => c.1 ∈ committed).flatMap Prod.snd

theorem committedPages_cons (committed : List TxId) (t : TxLog) (logs : List TxLog) :
    (if t.txId ∈ committed then withIds t.pages else []) ++
        withIds (committedPages committed (attempts logs)) =
      withIds (committedPages committed (attempts (t :: logs))) := by
  cases hattempt : t.attempt with
  | none => simp [attempts, TxLog.pages, hattempt, withIds]
  | some pages =>
      by_cases hmem : t.txId ∈ committed
      · simp [attempts, TxLog.pages, hattempt, withIds, committedPages, hmem]
      · simp [attempts, hattempt, withIds, committedPages, hmem]

/-- What a pass puts back of a prefix of a log of transactions. -/
theorem filterMap_log {committed aborted : List TxId} {logs : List TxLog} :
    ∀ {cut : List WalRecordKind}, (∀ t ∈ logs, t.Ok) → (logs.map TxLog.txId).Nodup →
    cut <+: logs.flatMap TxLog.all →
    (∀ t ∈ logs, t.txId ∈ committed ↔ .commitTx t.txId ∈ cut) →
    (∀ t ∈ logs, t.txId ∈ aborted ↔ .abortTx t.txId ∈ cut) →
    cut.filterMap (imageOf committed aborted) =
      withIds (committedPages committed (attempts logs)) := by
  induction logs with
  | nil =>
      intro cut _ _ hcut _ _
      rw [List.flatMap_nil, List.prefix_nil] at hcut
      rw [hcut]
      rfl
  | cons t logs ih =>
      intro cut hok hnodup hcut hcommitted haborted
      rw [List.forall_mem_cons] at hok hcommitted haborted
      rw [List.map_cons, List.nodup_cons] at hnodup
      obtain ⟨part, rest, rfl, hpart, hrest⟩ := prefix_flatMap_cons hcut
      -- the ids tell the records of `t` from those of the others
      have howner : ∀ kind : WalRecordKind, kind.owner = some t.txId → kind ∉ rest := by
        intro kind hkind hmem
        obtain ⟨u, hu, howner⟩ := owner_flatMap hok.2 (hrest.subset hmem)
        have heq : t.txId = u.txId := Option.some.inj (hkind.symm.trans howner)
        exact hnodup.1 (heq ▸ List.mem_map_of_mem hu)
      have hother : ∀ u ∈ logs, ∀ kind : WalRecordKind, kind.owner = some u.txId → kind ∉ part := by
        intro u hu kind hkind hmem
        have heq : t.txId = u.txId :=
          Option.some.inj ((hok.1.owner (hpart.subset hmem)).symm.trans hkind)
        exact hnodup.1 (heq ▸ List.mem_map_of_mem hu)
      have hfirst := filterMap_segment hok.1 hpart
        (hcommitted.1.trans (by simp [howner (.commitTx t.txId) rfl]))
        (haborted.1.trans (by simp [howner (.abortTx t.txId) rfl]))
      have hothers := ih hok.2 hnodup.2 hrest
        (fun u hu => (hcommitted.2 u hu).trans (by simp [hother u hu (.commitTx u.txId) rfl]))
        (fun u hu => (haborted.2 u hu).trans (by simp [hother u hu (.abortTx u.txId) rfl]))
      rw [List.filterMap_append, hfirst, hothers]
      exact committedPages_cons committed t logs

end Rdbms
