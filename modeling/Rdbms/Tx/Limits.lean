import Rdbms.Page.Corruption
import Rdbms.Tx.Autocommit

/-!
# The limits of the storage

A call that is in order may be refused all the same: a page is full, the ids or the log
sequence numbers have run out, a text is too long for its length field. `Limit` lists
these refusals. Below the checks of what the user has asked for, the storage fails with one
of them or with an error that is not the user's.
-/

namespace Rdbms

open Library Disk

/-- The limits that a call can run into. -/
inductive Limit where
  | transactionIds
  | relationIds
  | pageIds
  | pageOffset
  | lsn
  | walPayload
  | recordLength
  | slotCount
  | freeSpace (needed free : Nat)
  | u16Len (field : String)
  | u32Len (field : String)

namespace Limit

/-- The message of the error. -/
def message : Limit → String
  | transactionIds => "transaction id overflow"
  | relationIds => "relation id overflow"
  | pageIds => "page id overflow"
  | pageOffset => "page offset overflow"
  | lsn => "wal lsn overflow"
  | walPayload => "wal payload length overflow"
  | recordLength => "record is larger than u16 length limit"
  | slotCount => "page slot count overflow"
  | freeSpace needed free => s!"not enough free page space: need {needed}, have {free}"
  | u16Len field => s!"{field} does not fit into u16"
  | u32Len field => s!"{field} does not fit into u32"

/-- The exit with the error. -/
def stop (limit : Limit) : Stop := .error (.user limit.message)

end Limit

/-- An exit that is not the fault of the user, or at one of the limits. -/
def Stop.OfStorage : Stop → Prop
  | .error (.user message) => ∃ limit : Limit, message = limit.message
  | .error (.extension _) => False
  | _ => True

theorem Limit.ofStorage (limit : Limit) : limit.stop.OfStorage := ⟨limit, rfl⟩

theorem Stop.IsCorruption.ofStorage {stop : Stop} (h : stop.IsCorruption) : stop.OfStorage := by
  obtain ⟨message, rfl⟩ := h
  trivial

/-- A user error of the storage is one of the limits. -/
theorem Stop.OfStorage.exists_limit {stop : Stop} (h : stop.OfStorage) (huser : stop.IsUser) :
    ∃ limit : Limit, stop = limit.stop := by
  obtain ⟨message, rfl⟩ := huser
  obtain ⟨limit, rfl⟩ := h
  exact ⟨limit, rfl⟩

theorem failsIn_limit {c : Prop} [Decidable c] (limit : Limit) :
    FailsIn Stop.OfStorage (failIf c (.error limit.stop)) :=
  FailsIn.failIf fun _ => FailsIn.error limit.ofStorage

/-! ## Lengths -/

theorem writeU16Len_ofStorage (value : Nat) (field : String) :
    FailsIn Stop.OfStorage (writeU16Len value field) := by
  rw [writeU16Len]
  split
  · exact FailsIn.ok _
  · exact FailsIn.error (Limit.u16Len field).ofStorage

theorem writeU32Len_ofStorage (value : Nat) (field : String) :
    FailsIn Stop.OfStorage (writeU32Len value field) := by
  rw [writeU32Len]
  split
  · exact FailsIn.ok _
  · exact FailsIn.error (Limit.u32Len field).ofStorage

/-! ## Pages -/

namespace Page

variable (p : Page)

theorem header_ofStorage : FailsIn Stop.OfStorage p.header :=
  (header_failsIn p).mono fun _ => Stop.IsCorruption.ofStorage

theorem findDeadSlot_ofStorage (is : List UInt16) :
    FailsIn Stop.OfStorage (p.findDeadSlot is) := by
  induction is with
  | nil => exact FailsIn.ok none
  | cons i is ih =>
      refine ((slotEntry_failsIn p i).mono fun _ => Stop.IsCorruption.ofStorage).bind fun slot _ => ?_
      split
      · exact FailsIn.ok (some i)
      · exact ih

theorem writeBytes_ofStorage (offset : Nat) (data : List UInt8) :
    Exec.LeavesIn Stop.OfStorage (writeBytes offset data) := by
  intro p
  rw [writeBytes]
  split
  · exact FailsIn.ok ()
  · exact FailsIn.error trivial

theorem refreshChecksum_ofStorage : Exec.LeavesIn Stop.OfStorage refreshChecksum :=
  (writeBytes_ofStorage _ _).bind fun _ => Exec.LeavesIn.get.bind fun _ => writeBytes_ofStorage _ _

theorem writeSlotEntry_ofStorage (i : UInt16) (slot : SlotEntry) :
    Exec.LeavesIn Stop.OfStorage (writeSlotEntry i slot) := by
  have hoffset : FailsIn Stop.OfStorage (slotOffset i) :=
    (slotOffset_failsIn i).mono fun _ => Stop.IsCorruption.ofStorage
  refine (Exec.LeavesIn.liftM hoffset).bind fun offset => ?_
  refine (writeBytes_ofStorage _ _).bind fun _ => ?_
  exact (writeBytes_ofStorage _ _).bind fun _ => writeBytes_ofStorage _ _

/-- An insert is refused when the record is too long or does not fit. -/
theorem insertRecord_ofStorage (record : List UInt8) :
    Exec.LeavesIn Stop.OfStorage (insertRecord record) := by
  have hpanic : ∀ {c : Prop} [Decidable c], FailsIn Stop.OfStorage (failIf c DbResult.panicked) :=
    FailsIn.failIf fun _ => FailsIn.error trivial
  refine (Exec.LeavesIn.liftM (failsIn_limit .recordLength)).bind fun _ => ?_
  refine Exec.LeavesIn.get.bind fun p => ?_
  refine (Exec.LeavesIn.liftM (header_ofStorage p)).bind fun header => ?_
  refine (Exec.LeavesIn.liftM (findDeadSlot_ofStorage p _)).bind fun reusable => ?_
  refine (Exec.LeavesIn.liftM hpanic).bind fun _ => ?_
  refine (Exec.LeavesIn.liftM (failsIn_limit (.freeSpace _ _))).bind fun _ => ?_
  refine (Exec.LeavesIn.liftM hpanic).bind fun _ => ?_
  refine (writeBytes_ofStorage _ _).bind fun _ => ?_
  refine (writeBytes_ofStorage _ _).bind fun _ => ?_
  have hend : ∀ i slot, Exec.LeavesIn Stop.OfStorage (do
      writeSlotEntry i slot
      refreshChecksum
      return ⟨i⟩ : Db Page SlotId) := fun i slot =>
    (writeSlotEntry_ofStorage i slot).bind fun _ =>
      refreshChecksum_ofStorage.bind fun _ => Exec.LeavesIn.pure _
  cases reusable with
  | some i => exact hend i _
  | none =>
      refine (Exec.LeavesIn.liftM (failsIn_limit .slotCount)).bind fun _ => ?_
      refine (writeBytes_ofStorage _ _).bind fun _ => ?_
      refine (Exec.LeavesIn.liftM hpanic).bind fun _ => ?_
      exact (writeBytes_ofStorage _ _).bind fun _ => hend _ _

end Page

/-! ## Catalogs -/

namespace Catalog

theorem allocateRelationId_ofStorage : Exec.LeavesIn Stop.OfStorage allocateRelationId :=
  Exec.LeavesIn.get.bind fun _ => (Exec.LeavesIn.liftM (failsIn_limit .relationIds)).bind fun _ =>
    (Exec.LeavesIn.modify _).bind fun _ => Exec.LeavesIn.pure _

theorem allocatePageId_ofStorage : Exec.LeavesIn Stop.OfStorage allocatePageId :=
  Exec.LeavesIn.get.bind fun _ => (Exec.LeavesIn.liftM (failsIn_limit .pageIds)).bind fun _ =>
    (Exec.LeavesIn.modify _).bind fun _ => Exec.LeavesIn.pure _

theorem writeString_ofStorage (value : String) : FailsIn Stop.OfStorage (writeString value) :=
  (writeU16Len_ofStorage _ _).bind fun _ _ => FailsIn.ok _

theorem encodeStorageObject_ofStorage (storage : StorageObject) :
    FailsIn Stop.OfStorage (encodeStorageObject storage) := by
  cases storage with
  | heap pages => exact (writeU32Len_ofStorage _ _).bind fun _ _ => FailsIn.ok _
  | bPlusTree storage => exact (writeString_ofStorage _).bind fun _ _ => FailsIn.ok _

theorem encodeRelation_ofStorage (relation : RelationInfo) :
    FailsIn Stop.OfStorage (encodeRelation relation) := by
  refine (encodeStorageObject_ofStorage _).bind fun _ _ => ?_
  refine (writeString_ofStorage _).bind fun _ _ => ?_
  refine (writeU16Len_ofStorage _ _).bind fun _ _ => ?_
  refine (FailsIn.mapM fun column _ => ?_).bind fun _ _ => FailsIn.ok _
  refine (writeString_ofStorage _).bind fun _ _ => ?_
  exact (writeString_ofStorage _).bind fun _ _ => FailsIn.ok _

theorem encodeExtensions_ofStorage (extensions : List ExtensionInfo) :
    FailsIn Stop.OfStorage (encodeExtensions extensions) := by
  refine (writeU32Len_ofStorage _ _).bind fun _ _ => ?_
  refine (FailsIn.mapM fun extension _ => ?_).bind fun _ _ => FailsIn.ok _
  refine (writeString_ofStorage _).bind fun _ _ => ?_
  exact (writeString_ofStorage _).bind fun _ _ => FailsIn.ok _

theorem toPage_ofStorage (catalog : Catalog) : FailsIn Stop.OfStorage catalog.toPage := by
  refine FailsIn.bind ?_ fun bytes _ => ?_
  · refine (writeU32Len_ofStorage _ _).bind fun _ _ => ?_
    refine (FailsIn.mapM fun relation _ => encodeRelation_ofStorage relation).bind fun _ _ => ?_
    exact (encodeExtensions_ofStorage _).bind fun _ _ => FailsIn.ok _
  · exact ((Page.insertRecord_ofStorage bytes).toExcept _).bind fun _ _ => FailsIn.ok _

end Catalog

/-! ## Index nodes -/

theorem encodeKey_ofStorage (key : IndexKey) : FailsIn Stop.OfStorage (encodeKey key) := by
  cases key with
  | integer value => exact FailsIn.ok _
  | text value => exact (writeU16Len_ofStorage _ _).bind fun _ _ => FailsIn.ok _

theorem nodeToPage_ofStorage (pageId : PageId) (node : BTreeNode) :
    FailsIn Stop.OfStorage (nodeToPage pageId node) := by
  refine FailsIn.bind ?_ fun bytes _ => ?_
  · cases node with
    | leaf nextLeaf entries =>
        refine (writeU16Len_ofStorage _ _).bind fun _ _ => ?_
        refine (FailsIn.mapM fun entry _ => ?_).bind fun _ _ => FailsIn.ok _
        exact (encodeKey_ofStorage _).bind fun _ _ => FailsIn.ok _
    | internal keys children =>
        refine (FailsIn.failIf fun _ => FailsIn.error trivial).bind fun _ _ => ?_
        refine (writeU16Len_ofStorage _ _).bind fun _ _ => ?_
        refine (FailsIn.mapM fun key _ => encodeKey_ofStorage key).bind fun _ _ => ?_
        exact (writeU16Len_ofStorage _ _).bind fun _ _ => FailsIn.ok _
  · exact ((Page.insertRecord_ofStorage bytes).toExcept _).bind fun _ _ => FailsIn.ok _

/-! ## Files -/

theorem pageOffset_ofStorage (pageId : PageId) : FailsIn Stop.OfStorage (pageOffset pageId) := by
  rw [pageOffset]
  split
  · exact FailsIn.ok _
  · exact FailsIn.error Limit.pageOffset.ofStorage

theorem readExactAt_ofStorage (fileId : FileId) (offset : UInt64) (n : Nat) :
    Exec.LeavesIn Stop.OfStorage (readExactAt fileId offset n) := by
  intro d
  unfold readExactAt
  split
  · exact FailsIn.error trivial
  · split
    · exact FailsIn.ok _
    · exact FailsIn.error trivial

theorem writeAllAt_ofStorage (fileId : FileId) (offset : UInt64) (data : List UInt8) :
    Exec.LeavesIn Stop.OfStorage (writeAllAt fileId offset data) := by
  intro d
  unfold writeAllAt
  split
  · exact FailsIn.error trivial
  · split
    · exact FailsIn.ok _
    · exact FailsIn.error trivial

theorem syncData_ofStorage (fileId : FileId) :
    Exec.LeavesIn Stop.OfStorage (Disk.syncData fileId) := by
  intro d
  unfold Disk.syncData
  split
  · exact FailsIn.error trivial
  · exact FailsIn.ok _

theorem readPage_ofStorage (pageFile : PageFile FileId) (pageId : PageId) :
    Exec.LeavesIn Stop.OfStorage (pageFile.readPage pageId) := by
  have hbuffer : ∀ bytes, FailsIn Stop.OfStorage (Page.ofBuffer bytes) := by
    intro bytes
    rw [Page.ofBuffer]
    split
    · exact FailsIn.ok _
    · exact FailsIn.error trivial
  refine (Exec.LeavesIn.liftM (pageOffset_ofStorage pageId)).bind fun offset => ?_
  refine (readExactAt_ofStorage _ _ _).bind fun bytes => ?_
  refine (Exec.LeavesIn.liftM (hbuffer bytes)).bind fun page => ?_
  refine (Exec.LeavesIn.liftM ((Page.fromBytes_failsIn page).mono
    fun _ => Stop.IsCorruption.ofStorage)).bind fun page => ?_
  refine (Exec.LeavesIn.liftM (Page.header_ofStorage page)).bind fun header => ?_
  refine (Exec.LeavesIn.liftM (FailsIn.failIf fun _ => FailsIn.error trivial)).bind fun _ => ?_
  exact Exec.LeavesIn.pure _

/-- A page is written under its own id, which the check of the id lets through. -/
theorem writePage_ofStorage (pageFile : PageFile FileId) (page : Page) :
    Exec.LeavesIn Stop.OfStorage (pageFile.writePage page) := by
  refine Exec.LeavesIn.check (Page.header_ofStorage page) fun header hheader => ?_
  refine (Exec.LeavesIn.liftM ((Page.validate_failsIn page).mono
    fun _ => Stop.IsCorruption.ofStorage)).bind fun _ => ?_
  refine Exec.LeavesIn.check (Page.header_ofStorage page) fun header' hheader' => ?_
  obtain rfl : header = header' := by
    rw [hheader] at hheader'
    exact Except.ok.inj hheader'
  refine (Exec.LeavesIn.liftM (FailsIn.failIf fun hne => absurd rfl hne)).bind fun _ => ?_
  refine (Exec.LeavesIn.liftM (pageOffset_ofStorage _)).bind fun offset => ?_
  exact writeAllAt_ofStorage _ _ _

theorem append_ofStorage (kind : WalRecordKind) :
    Exec.LeavesIn Stop.OfStorage (WalWriter.append kind : Db (WalWriter FileId × Disk) Lsn) := by
  have hallocate : Exec.LeavesIn Stop.OfStorage (LsnAllocator.allocate kind.encodedLen) :=
    Exec.LeavesIn.get.bind fun _ => (Exec.LeavesIn.liftM (failsIn_limit .lsn)).bind fun _ =>
      (Exec.LeavesIn.modify _).bind fun _ => Exec.LeavesIn.pure _
  refine ((hallocate.zoom _ _).zoom _ _).bind fun lsn => ?_
  refine (Exec.LeavesIn.liftM ?_).bind fun bytes => ?_
  · exact (failsIn_limit .walPayload).bind fun _ _ => FailsIn.ok _
  refine Exec.LeavesIn.get.bind fun s => ?_
  exact ((writeAllAt_ofStorage _ _ _).zoom _ _).bind fun _ => Exec.LeavesIn.pure _

/-! ## Transactions -/

namespace Transaction

theorem loadPage_ofStorage (pageId : PageId) : Exec.LeavesIn Stop.OfStorage
    (loadPage pageId : Db (Transaction FileId × Disk) Page) := by
  intro s
  rw [loadPage_apply]
  split
  · exact FailsIn.ok _
  · exact (readPage_ofStorage _ _).zoom _ _ s

theorem logCommit_ofStorage (txId : TxId) (pages : List Page) : Exec.LeavesIn Stop.OfStorage
    (logCommit txId pages : Db (WalWriter FileId × Disk) Unit) := by
  refine (Exec.LeavesIn.forM fun page _ => ?_).bind fun _ => ?_
  · refine (Exec.LeavesIn.liftM ?_).bind fun kind => ?_
    · refine ((Page.validate_failsIn page).mono fun _ => Stop.IsCorruption.ofStorage).bind
        fun _ _ => ?_
      exact (Page.header_ofStorage page).bind fun _ _ => FailsIn.ok _
    · exact (append_ofStorage kind).bind fun _ => Exec.LeavesIn.pure _
  · refine (append_ofStorage _).bind fun _ => ?_
    exact Exec.LeavesIn.get.bind fun s => (syncData_ofStorage _).zoom _ _

theorem writePages_ofStorage (pageFile : PageFile FileId) (pages : List Page) :
    Exec.LeavesIn Stop.OfStorage (writePages pageFile pages) :=
  (Exec.LeavesIn.forM fun page _ => writePage_ofStorage pageFile page).bind
    fun _ => syncData_ofStorage _

/-- A commit of an active transaction is refused at a limit of the log or of the file. -/
theorem commit_ofStorage {s : Transaction FileId × Disk} (hactive : s.1.state = .active) :
    FailsIn Stop.OfStorage (commit s).1 := by
  rw [commit, Exec.bind_of_ok (ensureActive_of_active hactive), Exec.bind_of_ok (current_apply s)]
  refine Exec.LeavesIn.bind ?_ (fun _ => ?_) s
  · exact ((logCommit_ofStorage _ _).zoom _ _).zoom _ _
  · refine ((writePages_ofStorage _ _).zoom _ _).bind fun _ => ?_
    exact Exec.LeavesIn.modify _

end Transaction

/-- A free store refuses a transaction at a limit only. -/
theorem TransactionalStore.begin_ofStorage {s : TransactionalStore FileId × Disk}
    (hfree : s.1.activeWriter = false) : FailsIn Stop.OfStorage (begin s).1 := by
  obtain ⟨store, d⟩ := s
  have hbusy : ¬ store.activeWriter = true := by
    rw [show store.activeWriter = false from hfree]
    exact Bool.false_ne_true
  by_cases hfull : store.nextTxId.toNat + 1 ≥ 2 ^ 64
  · rw [begin_of_full hbusy hfull]
    exact FailsIn.error Limit.transactionIds.ofStorage
  · rw [begin_eq hbusy hfull]
    have happend := append_ofStorage (.beginTx ⟨store.nextTxId⟩) (store.wal, d)
    rcases hrun : WalWriter.append (.beginTx ⟨store.nextTxId⟩) (store.wal, d) with ⟨stop | lsn, w, e⟩
    · rw [hrun] at happend
      exact FailsIn.error (happend stop rfl)
    · exact FailsIn.ok _

end Rdbms
