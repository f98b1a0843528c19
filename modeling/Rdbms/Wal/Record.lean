import Rdbms.Page.Insert

/-!
# Log records

The binary envelope of the write-ahead log: a header of 40 bytes, whose fields
are adjacent, followed by a payload that only a page image has. The checksum
covers every byte of the record but its own four.
-/

namespace Rdbms

open Library

/-- Record kinds of the log. The image of a page is its complete buffer. -/
inductive WalRecordKind where
  | beginTx (txId : TxId)
  | pageImage (txId : TxId) (pageId : PageId) (image : Page)
  | commitTx (txId : TxId)
  | abortTx (txId : TxId)
  | checkpoint
  deriving DecidableEq

/-- Log record envelope. -/
structure WalRecord where
  lsn : Lsn
  kind : WalRecordKind
  deriving DecidableEq

namespace Wal

def walMagic : UInt32 := 0x52444257

def walVersion : UInt16 := 1

@[simp] abbrev headerSize : Nat := 40

@[simp] abbrev offMagic : Nat := 0

@[simp] abbrev offVersion : Nat := 4

@[simp] abbrev offKind : Nat := 6

@[simp] abbrev offLsn : Nat := 8

@[simp] abbrev offTxId : Nat := 16

@[simp] abbrev offPageId : Nat := 24

@[simp] abbrev offPayloadLen : Nat := 32

@[simp] abbrev offChecksum : Nat := 36

def kindBeginTx : UInt16 := 1

def kindPageImage : UInt16 := 2

def kindCommitTx : UInt16 := 3

def kindAbortTx : UInt16 := 4

def kindCheckpoint : UInt16 := 5

def absentId : UInt64 := 0xFFFFFFFFFFFFFFFF

/-- Fold the bytes of a record into its checksum, skipping the checksum field. -/
def walChecksumFrom (index : Nat) (acc : UInt32) : List UInt8 → UInt32
  | [] => acc
  | byte :: rest =>
      if offChecksum ≤ index ∧ index < offChecksum + 4 then walChecksumFrom (index + 1) acc rest
      else walChecksumFrom (index + 1) (acc + byte.toUInt32) rest

def walChecksum (bytes : List UInt8) : UInt32 := walChecksumFrom 0 0 bytes

def requireEmptyPayload (payload : List UInt8) (recordName : String) : DbResult Unit :=
  let length := payload.length
  if payload = [] then .ok ()
  else DbResult.corruption s!"{recordName} wal record has unexpected payload length: {length}"

end Wal

namespace WalRecordKind

open Wal

/-- A page-image record kind from a validated page. -/
def ofPage (txId : TxId) (page : Page) : DbResult WalRecordKind := do
  page.validate
  let header ← page.header
  return pageImage txId header.pageId page

def metadata : WalRecordKind → UInt16 × UInt64 × UInt64
  | beginTx txId => (kindBeginTx, txId.val, absentId)
  | pageImage txId pageId _ => (kindPageImage, txId.val, pageId.val)
  | commitTx txId => (kindCommitTx, txId.val, absentId)
  | abortTx txId => (kindAbortTx, txId.val, absentId)
  | checkpoint => (kindCheckpoint, absentId, absentId)

def payload : WalRecordKind → List UInt8
  | pageImage _ _ image => image.bytes
  | beginTx _ => []
  | commitTx _ => []
  | abortTx _ => []
  | checkpoint => []

/-- The number of bytes the record of this kind takes in the log. -/
def encodedLen (kind : WalRecordKind) : Nat := headerSize + kind.payload.length

end WalRecordKind

namespace WalRecord

open Wal

/-- The fields of the envelope in the order of their offsets, then the payload. -/
def layout (record : WalRecord) (payloadLen checksum : UInt32) : List UInt8 :=
  let (kind, txId, pageId) := record.kind.metadata
  le32 walMagic ++ le16 walVersion ++ le16 kind ++ le64 record.lsn.val ++ le64 txId ++
    le64 pageId ++ le32 payloadLen ++ le32 checksum ++ record.kind.payload

/-- Encode this record: the checksum is taken with its own field zeroed. -/
def encode (record : WalRecord) : DbResult (List UInt8) := do
  let payload := record.kind.payload
  failIf (payload.length ≥ 2 ^ 32) (DbResult.user "wal payload length overflow")
  let payloadLen := UInt32.ofNat payload.length
  return record.layout payloadLen (walChecksum (record.layout payloadLen 0))

/-- The kind a record with the given code and payload stands for. -/
def decodeKind (kind : UInt16) (txId : TxId) (pageId : PageId) (payload : List UInt8) :
    DbResult WalRecordKind :=
  if kind = kindBeginTx then do
    requireEmptyPayload payload "BeginTx"
    return .beginTx txId
  else if kind = kindPageImage then
    let length := payload.length
    if h : payload.length = pageSize then .ok (.pageImage txId pageId ⟨payload, h⟩)
    else DbResult.corruption s!"invalid page image payload length: {length}"
  else if kind = kindCommitTx then do
    requireEmptyPayload payload "CommitTx"
    return .commitTx txId
  else if kind = kindAbortTx then do
    requireEmptyPayload payload "AbortTx"
    return .abortTx txId
  else if kind = kindCheckpoint then do
    requireEmptyPayload payload "Checkpoint"
    return .checkpoint
  else DbResult.corruption s!"unknown wal record kind: {kind}"

/-- Decode one complete record. -/
def decode (bytes : List UInt8) : DbResult WalRecord := do
  failIf (bytes.length < headerSize) (DbResult.corruption "truncated wal record header")
  let magic ← readU32 bytes offMagic
  failIf (magic ≠ walMagic) (DbResult.corruption "invalid wal magic")
  let version ← readU16 bytes offVersion
  failIf (version ≠ walVersion) (DbResult.corruption s!"unsupported wal version: {version}")
  let payloadLen ← readU32 bytes offPayloadLen
  let expectedLen := headerSize + payloadLen.toNat
  let actualLen := bytes.length
  failIf (actualLen ≠ expectedLen) (DbResult.corruption
    s!"wal record length mismatch: expected={expectedLen}, got={actualLen}")
  let storedChecksum ← readU32 bytes offChecksum
  let actualChecksum := walChecksum bytes
  failIf (storedChecksum ≠ actualChecksum) (DbResult.corruption
    s!"wal checksum mismatch: stored={storedChecksum}, actual={actualChecksum}")
  let lsn ← readU64 bytes offLsn
  let txId ← readU64 bytes offTxId
  let pageId ← readU64 bytes offPageId
  let code ← readU16 bytes offKind
  let kind ← decodeKind code ⟨txId⟩ ⟨pageId⟩ (bytes.drop headerSize)
  return ⟨⟨lsn⟩, kind⟩

/-! ## Round trip -/

theorem payload_length (kind : WalRecordKind) :
    kind.payload.length = 0 ∨ kind.payload.length = pageSize := by
  cases kind with
  | pageImage txId pageId image => exact Or.inr image.size_eq
  | beginTx txId => exact Or.inl rfl
  | commitTx txId => exact Or.inl rfl
  | abortTx txId => exact Or.inl rfl
  | checkpoint => exact Or.inl rfl

/-- The bytes of the record in the log. -/
def bytes (record : WalRecord) : List UInt8 :=
  record.layout (UInt32.ofNat record.kind.payload.length)
    (walChecksum (record.layout (UInt32.ofNat record.kind.payload.length) 0))

theorem encode_eq (record : WalRecord) : record.encode = .ok record.bytes := by
  have hlen := payload_length record.kind
  rw [encode, failIf_of_not (by simp only [pageSize] at hlen; omega)]
  rfl

theorem length_layout (record : WalRecord) (payloadLen checksum : UInt32) :
    (record.layout payloadLen checksum).length = record.kind.encodedLen := by
  simp [layout, WalRecordKind.encodedLen]
  omega

theorem length_bytes (record : WalRecord) : record.bytes.length = record.kind.encodedLen :=
  length_layout record _ _

theorem walChecksumFrom_skip (index : Nat) (acc : UInt32) (field rest : List UInt8)
    (hlo : offChecksum ≤ index) (hhi : index + field.length ≤ offChecksum + 4) :
    walChecksumFrom index acc (field ++ rest) =
      walChecksumFrom (index + field.length) acc rest := by
  induction field generalizing index with
  | nil => rfl
  | cons byte field ih =>
      rw [List.length_cons] at hhi
      rw [List.cons_append, walChecksumFrom, if_pos ⟨hlo, by omega⟩,
        ih (index + 1) (by omega) (by omega), List.length_cons]
      congr 1
      omega

theorem walChecksumFrom_append (index : Nat) (acc : UInt32) (field rest : List UInt8)
    (hhi : index + field.length ≤ offChecksum) :
    walChecksumFrom index acc (field ++ rest) =
      walChecksumFrom (index + field.length) (walChecksumFrom index acc field) rest := by
  induction field generalizing index acc with
  | nil => rfl
  | cons byte field ih =>
      rw [List.length_cons] at hhi
      rw [List.cons_append, walChecksumFrom, walChecksumFrom, if_neg (by omega), if_neg (by omega),
        ih (index + 1) _ (by omega), List.length_cons]
      congr 1
      omega

/-- The fields before the checksum. -/
def preamble (record : WalRecord) (payloadLen : UInt32) : List UInt8 :=
  le32 walMagic ++ (le16 walVersion ++ (le16 record.kind.metadata.1 ++ (le64 record.lsn.val ++
    (le64 record.kind.metadata.2.1 ++ (le64 record.kind.metadata.2.2 ++ le32 payloadLen)))))

theorem length_preamble (record : WalRecord) (payloadLen : UInt32) :
    (record.preamble payloadLen).length = offChecksum := by
  simp [preamble]

theorem layout_eq (record : WalRecord) (payloadLen checksum : UInt32) :
    record.layout payloadLen checksum =
      record.preamble payloadLen ++ (le32 checksum ++ record.kind.payload) := by
  simp [layout, preamble]

/-- The checksum does not depend on what its own field holds. -/
theorem walChecksum_layout (record : WalRecord) (payloadLen checksum : UInt32) :
    walChecksum (record.layout payloadLen checksum) =
      walChecksumFrom (offChecksum + 4) (walChecksum (record.preamble payloadLen))
        record.kind.payload := by
  rw [layout_eq, walChecksum, walChecksumFrom_append 0 0 _ _ (by rw [length_preamble]; simp),
    walChecksumFrom_skip _ _ _ _ (by rw [length_preamble]; simp) (by rw [length_preamble]; simp),
    length_preamble, length_le32, walChecksum]
  simp

theorem decodeKind_metadata (kind : WalRecordKind) :
    decodeKind kind.metadata.1 ⟨kind.metadata.2.1⟩ ⟨kind.metadata.2.2⟩ kind.payload = .ok kind := by
  cases kind with
  | pageImage txId pageId image =>
      have hlen : image.bytes.length = pageSize := image.size_eq
      simp [decodeKind, WalRecordKind.metadata, WalRecordKind.payload, kindBeginTx, kindPageImage,
        hlen]
  | beginTx txId => rfl
  | commitTx txId => rfl
  | abortTx txId => rfl
  | checkpoint => rfl

section Fields

variable (record : WalRecord) (payloadLen checksum : UInt32)

theorem readU32_magic : readU32 (record.layout payloadLen checksum) offMagic = .ok walMagic :=
  readU32_of_eq [] (by simp only [layout, List.append_assoc, List.nil_append]; rfl) rfl

theorem readU16_version :
    readU16 (record.layout payloadLen checksum) offVersion = .ok walVersion :=
  readU16_of_eq (le32 walMagic) (by simp only [layout, List.append_assoc]; rfl) (by simp)

theorem readU16_kind :
    readU16 (record.layout payloadLen checksum) offKind = .ok record.kind.metadata.1 :=
  readU16_of_eq (le32 walMagic ++ le16 walVersion)
    (by simp only [layout, List.append_assoc]; rfl) (by simp)

theorem readU64_lsn :
    readU64 (record.layout payloadLen checksum) offLsn = .ok record.lsn.val :=
  readU64_of_eq (le32 walMagic ++ le16 walVersion ++ le16 record.kind.metadata.1)
    (by simp only [layout, List.append_assoc]; rfl) (by simp)

theorem readU64_txId :
    readU64 (record.layout payloadLen checksum) offTxId = .ok record.kind.metadata.2.1 :=
  readU64_of_eq (le32 walMagic ++ le16 walVersion ++ le16 record.kind.metadata.1 ++
    le64 record.lsn.val) (by simp only [layout, List.append_assoc]; rfl) (by simp)

theorem readU64_pageId :
    readU64 (record.layout payloadLen checksum) offPageId = .ok record.kind.metadata.2.2 :=
  readU64_of_eq (le32 walMagic ++ le16 walVersion ++ le16 record.kind.metadata.1 ++
    le64 record.lsn.val ++ le64 record.kind.metadata.2.1)
    (by simp only [layout, List.append_assoc]; rfl) (by simp)

theorem readU32_payloadLen :
    readU32 (record.layout payloadLen checksum) offPayloadLen = .ok payloadLen :=
  readU32_of_eq (le32 walMagic ++ le16 walVersion ++ le16 record.kind.metadata.1 ++
    le64 record.lsn.val ++ le64 record.kind.metadata.2.1 ++ le64 record.kind.metadata.2.2)
    (by simp only [layout, List.append_assoc]; rfl) (by simp)

theorem readU32_checksum :
    readU32 (record.layout payloadLen checksum) offChecksum = .ok checksum :=
  readU32_of_eq _ (layout_eq record payloadLen checksum) (length_preamble record payloadLen)

theorem drop_layout :
    (record.layout payloadLen checksum).drop headerSize = record.kind.payload := by
  rw [layout_eq, ← List.append_assoc]
  apply List.drop_left'
  rw [List.length_append, length_preamble, length_le32]

end Fields

theorem payloadLen_toNat (kind : WalRecordKind) :
    (UInt32.ofNat kind.payload.length).toNat = kind.payload.length := by
  have hlen := payload_length kind
  simp only [pageSize] at hlen
  rw [UInt32.toNat_ofNat']
  omega

/-- Every record reads back from its own bytes. -/
theorem decode_bytes (record : WalRecord) : decode record.bytes = .ok record := by
  have hlen : record.bytes.length = headerSize + record.kind.payload.length := length_bytes record
  have hsum : walChecksum record.bytes =
      walChecksum (record.layout (UInt32.ofNat record.kind.payload.length) 0) := by
    rw [bytes, walChecksum_layout, walChecksum_layout]
  rw [decode, failIf_of_not (by rw [hlen]; omega), hsum, hlen, bytes, readU32_magic,
    readU16_version, readU32_payloadLen, readU32_checksum, readU64_lsn, readU64_txId,
    readU64_pageId, readU16_kind, drop_layout]
  simp only [bind, Except.bind]
  rw [failIf_of_not (by simp), failIf_of_not (by simp),
    failIf_of_not (by rw [payloadLen_toNat]; simp), failIf_of_not (by simp), decodeKind_metadata]
  rfl

end WalRecord

end Rdbms
