import Rdbms.Catalog.Codec
import Rdbms.Library.Failure

/-!
# The catalog format is canonical

A catalog has one encoding: whatever the decoder accepts is what the encoder writes
for the result, except that a record without a section of extensions, as older
catalogs were written, gets one. The encoder refuses exactly the catalogs with a
text or a list that its length fields cannot hold.

The decoder refuses a record as corrupt, but it believes the counts that the record
announces: it asks for the memory of all relations, pages or extensions before it has
read the first of them. A count for which the allocator has no memory ends the process,
and `Announces` says which counts the decoder comes to.
-/

namespace Rdbms

open Library Cursor

/-! ## What the encoder accepts -/

/-- The texts of a relation that the format stores. -/
def RelationInfo.texts (relation : RelationInfo) : List String :=
  (relation.indexStorage.map IndexStorage.columnName).toList ++ (relation.name ::
    relation.columns.flatMap fun column => [column.name, column.typeName])

namespace Catalog

/-- The texts that the format stores. -/
def texts (catalog : Catalog) : List String :=
  catalog.relations.flatMap RelationInfo.texts ++
    catalog.extensions.flatMap fun extension => [extension.name, extension.kind]

/-- Every text and every list fits into its length field. -/
structure Encodable (catalog : Catalog) : Prop where
  texts : ∀ s ∈ catalog.texts, (utf8 s).length ≤ 65535
  columns : ∀ relation ∈ catalog.relations, relation.columns.length ≤ 65535
  pages : ∀ relation ∈ catalog.relations, relation.heapPages.length ≤ 4294967295
  relations : catalog.relations.length ≤ 4294967295
  extensions : catalog.extensions.length ≤ 4294967295

theorem writeString_isOk {s : String} :
    (∃ bs, writeString s = .ok bs) ↔ (utf8 s).length ≤ 65535 := by
  rw [writeString, except_map_isOk, writeU16Len_isOk]

theorem encodeStorageObject_isOk {storage : StorageObject} :
    (∃ bs, encodeStorageObject storage = .ok bs) ↔
      storage.heapPages.length ≤ 4294967295 ∧
        ∀ s ∈ (storage.indexStorage.map IndexStorage.columnName).toList,
          (utf8 s).length ≤ 65535 := by
  cases storage with
  | heap pages =>
      rw [encodeStorageObject, except_map_isOk, writeU32Len_isOk]
      exact ⟨fun hpages => ⟨hpages, nofun⟩, fun h => h.1⟩
  | bPlusTree storage =>
      rw [encodeStorageObject, except_map_isOk, writeString_isOk]
      simp [StorageObject.heapPages, StorageObject.indexStorage]

theorem encodeColumn_isOk {column : ColumnDef} :
    (∃ bs, encodeColumn column = .ok bs) ↔
      ∀ s ∈ [column.name, column.typeName], (utf8 s).length ≤ 65535 := by
  rw [encodeColumn, except_bind_isOk]
  simp only [except_map_isOk, writeString_isOk, exists_and_right, List.forall_mem_cons,
    List.not_mem_nil, false_implies, implies_true, and_true]

theorem encodeRelation_isOk {relation : RelationInfo} :
    (∃ bs, encodeRelation relation = .ok bs) ↔
      (∀ s ∈ relation.texts, (utf8 s).length ≤ 65535) ∧ relation.columns.length ≤ 65535 ∧
        relation.heapPages.length ≤ 4294967295 := by
  have hparts : (∃ bs, encodeRelation relation = .ok bs) ↔
      (∃ bs, encodeStorageObject relation.storage = .ok bs) ∧
        (∃ bs, writeString relation.name = .ok bs) ∧
        (∃ bs, writeU16Len relation.columns.length "column count" = .ok bs) ∧
        ∃ bs, relation.columns.mapM encodeColumn = .ok bs := by
    rw [encodeRelation]
    simp only [except_bind_isOk, except_pure_eq, Except.ok.injEq, exists_eq', and_true,
      exists_and_right]
  have htexts : (∀ s ∈ relation.texts, (utf8 s).length ≤ 65535) ↔
      (∀ s ∈ (relation.storage.indexStorage.map IndexStorage.columnName).toList,
        (utf8 s).length ≤ 65535) ∧ (utf8 relation.name).length ≤ 65535 ∧
      ∀ column ∈ relation.columns, ∀ s ∈ [column.name, column.typeName],
        (utf8 s).length ≤ 65535 := by
    rw [RelationInfo.texts, List.forall_mem_append, List.forall_mem_cons, List.forall_mem_flatMap]
    rfl
  rw [hparts, encodeStorageObject_isOk, writeString_isOk, writeU16Len_isOk, except_mapM_isOk,
    htexts]
  simp only [encodeColumn_isOk, RelationInfo.heapPages]
  tauto

theorem encodeExtension_isOk {extension : ExtensionInfo} :
    (∃ bs, encodeExtension extension = .ok bs) ↔
      ∀ s ∈ [extension.name, extension.kind], (utf8 s).length ≤ 65535 := by
  rw [encodeExtension, except_bind_isOk]
  simp only [except_map_isOk, writeString_isOk, exists_and_right, List.forall_mem_cons,
    List.not_mem_nil, false_implies, implies_true, and_true]

theorem encodeExtensions_isOk {extensions : List ExtensionInfo} :
    (∃ bs, encodeExtensions extensions = .ok bs) ↔ extensions.length ≤ 4294967295 ∧
      ∀ extension ∈ extensions, ∀ s ∈ [extension.name, extension.kind],
        (utf8 s).length ≤ 65535 := by
  rw [encodeExtensions, except_bind_isOk]
  simp only [except_map_isOk, exists_and_right, writeU32Len_isOk, except_mapM_isOk,
    encodeExtension_isOk]

/-- The encoder accepts a catalog exactly when its texts and lists fit. -/
theorem encodeCatalog_isOk {catalog : Catalog} :
    (∃ bs, encodeCatalog catalog = .ok bs) ↔ catalog.Encodable := by
  have hparts : (∃ bs, encodeCatalog catalog = .ok bs) ↔
      (∃ bs, writeU32Len catalog.relations.length "relation count" = .ok bs) ∧
        (∃ bs, catalog.relations.mapM encodeRelation = .ok bs) ∧
        ∃ bs, encodeExtensions catalog.extensions = .ok bs := by
    rw [encodeCatalog]
    simp only [except_bind_isOk, except_pure_eq, Except.ok.injEq, exists_eq', and_true,
      exists_and_right]
  rw [hparts, writeU32Len_isOk, except_mapM_isOk, encodeExtensions_isOk]
  simp only [encodeRelation_isOk]
  have htexts : (∀ s ∈ catalog.texts, (utf8 s).length ≤ 65535) ↔
      (∀ relation ∈ catalog.relations, ∀ s ∈ relation.texts, (utf8 s).length ≤ 65535) ∧
        ∀ extension ∈ catalog.extensions, ∀ s ∈ [extension.name, extension.kind],
          (utf8 s).length ≤ 65535 := by
    rw [texts, List.forall_mem_append, List.forall_mem_flatMap, List.forall_mem_flatMap]
  constructor
  · rintro ⟨hcount, hrelations, hextensions, hnames⟩
    exact ⟨htexts.2 ⟨fun r hr => (hrelations r hr).1, hnames⟩, fun r hr => (hrelations r hr).2.1,
      fun r hr => (hrelations r hr).2.2, hcount, hextensions⟩
  · rintro ⟨hnames, hcolumns, hpages, hcount, hextensions⟩
    rw [htexts] at hnames
    exact ⟨hcount, fun r hr => ⟨hnames.1 r hr, hcolumns r hr, hpages r hr⟩, hextensions, hnames.2⟩

/-! ## What the decoder accepts -/

theorem consumes_readString :
    Consumes readString (fun _ => Stop.IsCorruption) fun s bs => writeString s = .ok bs := by
  refine Consumes.bind (consumes_readU16 isCorruption_overflow isCorruption_truncated) ?_
  rintro len xs rfl
  refine (consumes_readText isCorruption_overflow isCorruption_truncated _ _).imp ?_
  rintro s bs ⟨rfl, hlen⟩
  rw [writeString, hlen, writeU16Len_toNat]
  rfl

theorem consumes_readU8 :
    Consumes (Cursor.readU8 errors) (fun _ => Stop.IsCorruption) fun v xs => xs = [v] :=
  Cursor.consumes_readU8 isCorruption_overflow isCorruption_truncated

theorem consumes_readU16 :
    Consumes (Cursor.readU16 errors) (fun _ => Stop.IsCorruption) fun v xs => xs = le16 v :=
  Cursor.consumes_readU16 isCorruption_overflow isCorruption_truncated

theorem consumes_readU32 :
    Consumes (Cursor.readU32 errors) (fun _ => Stop.IsCorruption) fun v xs => xs = le32 v :=
  Cursor.consumes_readU32 isCorruption_overflow isCorruption_truncated

theorem consumes_readU64 :
    Consumes (Cursor.readU64 errors) (fun _ => Stop.IsCorruption) fun v xs => xs = le64 v :=
  Cursor.consumes_readU64 isCorruption_overflow isCorruption_truncated

theorem consumes_decodePageId :
    Consumes decodePageId (fun _ => Stop.IsCorruption) fun page bs => bs = le64 page.val := by
  refine Consumes.bind consumes_readU64 ?_
  rintro page xs rfl
  exact Consumes.pure (List.append_nil _)

theorem consumes_decodeColumn :
    Consumes decodeColumn (fun _ => Stop.IsCorruption) fun column bs =>
      encodeColumn column = .ok bs := by
  refine Consumes.bind consumes_readString ?_
  intro name xs hname
  refine Consumes.bind consumes_readString ?_
  intro typeName ys htype
  refine Consumes.pure ?_
  rw [encodeColumn, hname, htype, List.append_nil]
  rfl

theorem consumes_decodeExtension :
    Consumes decodeExtension (fun _ => Stop.IsCorruption) fun extension bs =>
      encodeExtension extension = .ok bs := by
  refine Consumes.bind consumes_readString ?_
  intro name xs hname
  refine Consumes.bind consumes_readU32 ?_
  rintro abiVersion ys rfl
  refine Consumes.bind consumes_readString ?_
  intro kind ys hkind
  refine Consumes.pure ?_
  rw [encodeExtension, hname, hkind, List.append_nil]
  rfl

theorem RelationKind.toU8_of_fromU8 {code : UInt8} {kind : RelationKind}
    (h : RelationKind.fromU8 code = .ok kind) : kind.toU8 = code := by
  simp only [RelationKind.fromU8, DbResult.corruption] at h
  split_ifs at h <;> cases h <;> subst_vars <;> rfl

/-! ## Counts that are believed -/

/-- Bytes that are read as the relation, in any memory that has room for its pages. -/
def Encodes (relation : RelationInfo) (bytes : List UInt8) : Prop :=
  encodeRelation relation = .ok bytes ∧ ∀ pages, relation.storage = .heap pages → pages ≠ []

/-- The front of a relation that is a heap, up to the number of its pages. -/
def heapFront (id : UInt64) (kind : RelationKind) (pageCount : UInt32) : List UInt8 :=
  le64 id ++ ([kind.toU8] ++ ([storageHeap] ++ le32 pageCount))

/-- The counts in a record that stand behind nothing but what can be read: the number of
relations, the number of pages of a heap behind some of these relations, and the number of
extensions behind all of them. -/
inductive Announces (bytes : List UInt8) : Element → Nat → Prop
  | relations {nextRelationId nextPageId : UInt64} {count : UInt32} {back : List UInt8}
      (hbytes : bytes = preamble nextRelationId nextPageId count ++ back) :
      Announces bytes .relation count.toNat
  | heapPages {nextRelationId nextPageId : UInt64} {count : UInt32} {relations : List RelationInfo}
      {encoded : List (List UInt8)} {id : UInt64} {kind : RelationKind} {pageCount : UInt32}
      {back : List UInt8} (hread : List.Forall₂ Encodes relations encoded)
      (hleft : relations.length < count.toNat)
      (hbytes : bytes = preamble nextRelationId nextPageId count ++
        (encoded.flatten ++ (heapFront id kind pageCount ++ back))) :
      Announces bytes .pageId pageCount.toNat
  | extensions {nextRelationId nextPageId : UInt64} {count : UInt32} {relations : List RelationInfo}
      {encoded : List (List UInt8)} {extensionCount : UInt32} {back : List UInt8}
      (hread : List.Forall₂ Encodes relations encoded) (hall : relations.length = count.toNat)
      (hbytes : bytes = preamble nextRelationId nextPageId count ++
        (encoded.flatten ++ (le32 extensionCount ++ back))) :
      Announces bytes .extension extensionCount.toNat

/-- The exits of a decoder that asks for memory: a corruption, or the end of the process when
`refused` holds of what was still to be read. -/
def CorruptOr (refused : List UInt8 → Prop) (rest : List UInt8) (stop : Stop) : Prop :=
  stop.IsCorruption ∨ stop = .aborted ∧ refused rest

section Consumes

variable {memory : Memory}

/-- The bytes begin with a heap whose pages are too many. -/
def HeapRefused (memory : Memory) (rest : List UInt8) : Prop :=
  ∃ (pageCount : UInt32) (back : List UInt8),
    rest = [storageHeap] ++ (le32 pageCount ++ back) ∧
      ¬ memory.grants .pageId pageCount.toNat = true

theorem consumes_decodeStorageObject :
    Consumes (decodeStorageObject memory) (CorruptOr (HeapRefused memory)) fun storage bs =>
      encodeStorageObject storage = .ok bs ∧ (∀ pages, storage = .heap pages → pages ≠ []) ∧
        memory.grants .pageId storage.heapPages.length = true := by
  refine Consumes.bind (consumes_readU8.weaken fun _ _ => Or.inl) ?_
  rintro storageKind xs rfl
  by_cases hheap : storageKind = storageHeap
  · subst hheap
    rw [if_pos rfl]
    refine Consumes.bind (consumes_readU32.weaken fun _ _ => Or.inl) ?_
    rintro count xs rfl
    refine Consumes.lift_bind ?_ fun _ hgrants => ?_
    · intro back stop hstop
      obtain ⟨rfl, hrefused⟩ := Memory.withCapacity_eq_error hstop
      exact Or.inr ⟨rfl, count, back, rfl, hrefused⟩
    rw [Memory.withCapacity_eq_ok] at hgrants
    refine Consumes.bind ((consumes_decodePageId.readMany _).weaken fun _ _ => Or.inl) ?_
    rintro pages xs ⟨hcount, parts, hparts, rfl⟩
    refine Consumes.lift_bind (fun stop hstop => Or.inl (isCorruption_failIf hstop)) fun _ hpages =>
      Consumes.pure ⟨?_, ?_, ?_⟩
    · rw [encodeStorageObject, hcount, writeU32Len_toNat, forall₂_eq_map hparts, List.append_nil]
      rfl
    · rintro _ ⟨⟩
      exact failIf_eq_ok.1 hpages
    · rwa [StorageObject.heapPages, hcount]
  · rw [if_neg hheap]
    by_cases hindex : storageKind = storageIndex
    · subst hindex
      rw [if_pos rfl]
      refine Consumes.bind (consumes_readU64.weaken fun _ _ => Or.inl) ?_
      rintro tableId xs rfl
      refine Consumes.bind (consumes_readU64.weaken fun _ _ => Or.inl) ?_
      rintro rootPageId xs rfl
      refine Consumes.bind (consumes_readString.weaken fun _ _ => Or.inl) ?_
      intro columnName xs hcolumn
      refine Consumes.pure ⟨?_, nofun, memory.grants_zero .pageId⟩
      rw [encodeStorageObject, hcolumn, List.append_nil]
      rfl
    · rw [if_neg hindex]
      exact Consumes.lift (fun stop hstop => by cases hstop; exact Or.inl ⟨_, rfl⟩) nofun

/-- The bytes begin with a relation whose pages are too many. -/
def RelationRefused (memory : Memory) (rest : List UInt8) : Prop :=
  ∃ (id : UInt64) (kind : RelationKind) (pageCount : UInt32) (back : List UInt8),
    rest = heapFront id kind pageCount ++ back ∧ ¬ memory.grants .pageId pageCount.toNat = true

theorem consumes_decodeRelation :
    Consumes (decodeRelation memory) (CorruptOr (RelationRefused memory)) fun relation bs =>
      Encodes relation bs ∧ memory.grants .pageId relation.heapPages.length = true := by
  refine Consumes.bind (consumes_readU64.weaken fun _ _ => Or.inl) ?_
  rintro id xs rfl
  refine Consumes.bind (consumes_readU8.weaken fun _ _ => Or.inl) ?_
  rintro code xs rfl
  refine Consumes.lift_bind ?_ fun kind hkind => ?_
  · intro back stop hstop
    simp only [RelationKind.fromU8, DbResult.corruption] at hstop
    split_ifs at hstop
    cases hstop
    exact Or.inl ⟨_, rfl⟩
  cases RelationKind.toU8_of_fromU8 hkind
  refine Consumes.bind (consumes_decodeStorageObject.weaken ?_) ?_
  · rintro rest stop (hstop | ⟨rfl, pageCount, back, rfl, hrefused⟩)
    · exact Or.inl hstop
    · refine Or.inr ⟨rfl, id, kind, pageCount, back, ?_, hrefused⟩
      simp only [heapFront, List.append_assoc]
  rintro storage xs ⟨hstorage, hpages, hgrants⟩
  refine Consumes.bind (consumes_readString.weaken fun _ _ => Or.inl) ?_
  intro name ys hname
  refine Consumes.bind (consumes_readU16.weaken fun _ _ => Or.inl) ?_
  rintro count zs rfl
  refine Consumes.bind ((consumes_decodeColumn.readMany _).weaken fun _ _ => Or.inl) ?_
  rintro columns zs ⟨hcount, parts, hparts, rfl⟩
  refine Consumes.pure ⟨⟨?_, hpages⟩, hgrants⟩
  rw [encodeRelation]
  simp only [hstorage, hname, hcount, writeU16Len_toNat, except_mapM_eq_ok.2 hparts, bind,
    Except.bind, List.append_nil]
  rfl

/-- The bytes begin with too many extensions. -/
def ExtensionsRefused (memory : Memory) (rest : List UInt8) : Prop :=
  ∃ (extensionCount : UInt32) (back : List UInt8),
    rest = le32 extensionCount ++ back ∧ ¬ memory.grants .extension extensionCount.toNat = true

/-- The section of extensions may be missing altogether. -/
theorem consumes_decodeExtensions :
    Consumes (decodeExtensions memory) (CorruptOr (ExtensionsRefused memory)) fun extensions bs =>
      (encodeExtensions extensions = .ok bs ∨ extensions = [] ∧ bs = []) ∧
        memory.grants .extension extensions.length = true := by
  refine Consumes.ite_isFinished
    (Consumes.pure ⟨Or.inr ⟨rfl, rfl⟩, memory.grants_zero .extension⟩) ?_
  refine Consumes.bind (consumes_readU32.weaken fun _ _ => Or.inl) ?_
  rintro count xs rfl
  refine Consumes.lift_bind ?_ fun _ hgrants => ?_
  · intro back stop hstop
    obtain ⟨rfl, hrefused⟩ := Memory.withCapacity_eq_error hstop
    exact Or.inr ⟨rfl, count, back, rfl, hrefused⟩
  rw [Memory.withCapacity_eq_ok] at hgrants
  refine ((consumes_decodeExtension.readMany _).weaken fun _ _ => Or.inl).imp ?_
  rintro extensions bs ⟨hcount, parts, hparts, rfl⟩
  refine ⟨Or.inl ?_, by rwa [hcount]⟩
  rw [encodeExtensions, hcount, writeU32Len_toNat]
  simp only [except_mapM_eq_ok.2 hparts, bind, Except.bind]
  rfl

/-- The bytes of a catalog, or all of them but an empty section of extensions. -/
def Stores (catalog : Catalog) (bytes : List UInt8) : Prop :=
  encodeCatalog catalog = .ok bytes ∨
    catalog.extensions = [] ∧ encodeCatalog catalog = .ok (bytes ++ [0, 0, 0, 0])

/-- The record announces a count that the allocator has no memory for. -/
def Overcommits (memory : Memory) (bytes : List UInt8) : Prop :=
  ∃ element count, Announces bytes element count ∧ ¬ memory.grants element count = true

theorem consumes_readCatalog :
    Consumes (readCatalog memory) (CorruptOr (Overcommits memory)) fun catalog bs =>
      Stores catalog bs ∧ catalog.HeapsNonempty ∧ catalog.AdmittedBy memory := by
  refine Consumes.bind ((consumes_readBytes isCorruption_overflow isCorruption_truncated
    4).weaken (fun _ _ => Or.inl)) ?_
  rintro magic xs ⟨rfl, -⟩
  refine Consumes.lift_bind (fun stop hstop => Or.inl (isCorruption_failIf hstop)) fun _ hmagic => ?_
  rw [failIf_eq_ok, not_not] at hmagic
  subst hmagic
  refine Consumes.bind (consumes_readU16.weaken fun _ _ => Or.inl) ?_
  rintro version xs rfl
  refine Consumes.lift_bind (fun stop hstop => Or.inl (isCorruption_failIf hstop))
    fun _ hversion => ?_
  rw [failIf_eq_ok, not_not] at hversion
  subst hversion
  refine Consumes.bind (consumes_readU64.weaken fun _ _ => Or.inl) ?_
  rintro nextRelationId xs rfl
  refine Consumes.bind (consumes_readU64.weaken fun _ _ => Or.inl) ?_
  rintro nextPageId xs rfl
  refine Consumes.bind (consumes_readU32.weaken fun _ _ => Or.inl) ?_
  rintro count xs rfl
  -- what stands in front of here is the preamble
  have hfront : ∀ bs, catalogMagic ++ (le16 catalogVersion ++ (le64 nextRelationId ++
      (le64 nextPageId ++ (le32 count ++ bs)))) = preamble nextRelationId nextPageId count ++ bs := by
    intro bs
    simp only [preamble, List.append_assoc]
  refine Consumes.lift_bind ?_ fun _ hrelations => ?_
  · intro back stop hstop
    obtain ⟨rfl, hrefused⟩ := Memory.withCapacity_eq_error hstop
    exact Or.inr ⟨rfl, .relation, _, .relations (hfront back), hrefused⟩
  rw [Memory.withCapacity_eq_ok] at hrelations
  refine Consumes.bind ((consumes_decodeRelation.readMany_within _).weaken ?_) ?_
  · rintro rest stop ⟨relations, parts, back, hleft, hparts, rfl, hstop | ⟨rfl, hrefused⟩⟩
    · exact Or.inl hstop
    · obtain ⟨id, kind, pageCount, more, rfl, hrefused⟩ := hrefused
      exact Or.inr ⟨rfl, .pageId, _, .heapPages (hparts.imp fun _ _ h => h.1) hleft (hfront _),
        hrefused⟩
  rintro relations xs ⟨hcount, parts, hparts, rfl⟩
  refine Consumes.bind (consumes_decodeExtensions.weaken ?_) ?_
  · rintro rest stop (hstop | ⟨rfl, extensionCount, back, rfl, hrefused⟩)
    · exact Or.inl hstop
    · exact Or.inr ⟨rfl, .extension, _, .extensions (hparts.imp fun _ _ h => h.1) hcount (hfront _),
        hrefused⟩
  rintro extensions xs ⟨hextensions, hgrants⟩
  have hencoded := except_mapM_eq_ok.2 (hparts.imp fun _ _ h => h.1.1)
  have hsize : relations.length < 2 ^ 32 := hcount ▸ count.toNat_lt
  have hword : UInt32.ofNat relations.length = count := by rw [hcount, UInt32.ofNat_toNat]
  refine Consumes.pure ⟨?_, ?_, ⟨by rwa [hcount], ?_, hgrants⟩⟩
  · simp only [List.append_nil]
    rw [hfront]
    rcases hextensions with hextensions | ⟨rfl, rfl⟩
    · exact Or.inl (encodeCatalog_eq_ok.2 ⟨hsize, parts, xs, hencoded, hextensions, by rw [hword]⟩)
    · refine Or.inr ⟨rfl, encodeCatalog_eq_ok.2 ⟨hsize, parts, _, hencoded, encodeExtensions_nil, ?_⟩⟩
      rw [hword, List.append_nil, List.append_assoc]
  · intro relation hrelation
    obtain ⟨part, -, h⟩ := forall₂_mem_right hparts.flip hrelation
    exact h.1.2
  · intro relation hrelation
    obtain ⟨part, -, h⟩ := forall₂_mem_right hparts.flip hrelation
    exact h.2

end Consumes

/-! ## Counts that are refused -/

section Refused

variable {memory : Memory}

theorem fails_readCatalog (nextRelationId nextPageId : UInt64) {count : UInt32} {bs : List UInt8}
    (h : FailsOn .aborted (readBody memory nextRelationId nextPageId count) bs) :
    FailsOn .aborted (readCatalog memory) (preamble nextRelationId nextPageId count ++ bs) := by
  simp only [preamble, List.append_assoc]
  refine Reads.bind_fails (reads_readBytes errors catalogMagic) ?_
  refine Reads.lift_bind_fails (failIf_of_not (not_not.2 rfl)) ?_
  refine Reads.bind_fails (reads_readU16 errors catalogVersion) ?_
  refine Reads.lift_bind_fails (failIf_of_not (not_not.2 rfl)) ?_
  refine Reads.bind_fails (reads_readU64 errors _) ?_
  refine Reads.bind_fails (reads_readU64 errors _) ?_
  exact Reads.bind_fails (reads_readU32 errors _) h

theorem fails_decodeRelation (id : UInt64) (kind : RelationKind) (pageCount : UInt32)
    (h : ¬ memory.grants .pageId pageCount.toNat = true) :
    FailsOn .aborted (decodeRelation memory) (heapFront id kind pageCount) := by
  refine Reads.bind_fails (reads_readU64 errors _) ?_
  refine Reads.bind_fails (reads_readU8 errors _) ?_
  refine Reads.lift_bind_fails (RelationKind.fromU8_toU8 kind) (FailsOn.bind ?_)
  refine Reads.bind_fails (reads_readU8 errors storageHeap) ?_
  rw [if_pos rfl]
  refine Reads.map_fails (reads_readU32 errors _) (FailsOn.bind ?_)
  exact FailsOn.lift (Memory.withCapacity_of_not h)

/-- A relation is read, or its pages are too many. -/
theorem decodeRelation_reads_or_fails {relation : RelationInfo} {bs : List UInt8}
    (h : Encodes relation bs) :
    Reads (decodeRelation memory) bs relation ∨ FailsOn .aborted (decodeRelation memory) bs := by
  obtain ⟨hencode, hpages⟩ := h
  by_cases hgrants : memory.grants .pageId relation.heapPages.length = true
  · exact Or.inl (reads_decodeRelation hencode hpages hgrants)
  right
  obtain ⟨storage, hstorage, hencode⟩ := except_bind_eq_ok.1 hencode
  obtain ⟨name, -, hencode⟩ := except_bind_eq_ok.1 hencode
  obtain ⟨count, -, hencode⟩ := except_bind_eq_ok.1 hencode
  obtain ⟨columns, -, hencode⟩ := except_bind_eq_ok.1 hencode
  rw [RelationInfo.heapPages] at hgrants
  cases hkind : relation.storage with
  | bPlusTree index =>
      rw [hkind] at hgrants
      exact absurd (memory.grants_zero .pageId) hgrants
  | heap pages =>
      rw [hkind] at hgrants hstorage
      obtain ⟨pageCount, hcount, hstorage⟩ := except_bind_eq_ok.1 hstorage
      obtain ⟨hlt, rfl⟩ := writeU32Len_eq_ok.1 hcount
      cases hstorage
      cases hencode
      have hrefused : ¬ memory.grants .pageId (UInt32.ofNat pages.length).toNat = true := by
        rwa [toNat_u32Len hlt]
      have hfails := fails_decodeRelation relation.id.val relation.kind _ hrefused
      have hall := hfails.append
        ((pages.map fun page => le64 page.val).flatten ++ (name ++ (count ++ columns.flatten)))
      simpa only [heapFront, List.append_assoc] using hall

/-- A number of relations that is refused is the last thing that is read. -/
theorem fails_of_relations (nextRelationId nextPageId : UInt64) {count : UInt32}
    (h : ¬ memory.grants .relation count.toNat = true) :
    FailsOn .aborted (readCatalog memory) (preamble nextRelationId nextPageId count) := by
  rw [← List.append_nil (preamble _ _ _)]
  exact fails_readCatalog _ _ (FailsOn.bind (FailsOn.lift (Memory.withCapacity_of_not h)))

/-- The record is read up to the first count that is refused, which may stand in front of the
given one. -/
theorem Announces.fails {bytes : List UInt8} {element : Element} {count : Nat}
    (h : Announces bytes element count) (hrefused : ¬ memory.grants element count = true) :
    ∃ front back, FailsOn .aborted (readCatalog memory) front ∧ bytes = front ++ back := by
  cases h with
  | relations hbytes => exact ⟨_, _, fails_of_relations _ _ hrefused, hbytes⟩
  | @heapPages nextRelationId nextPageId count _ encoded id kind pageCount back hread hleft hbytes =>
      by_cases hgrants : memory.grants .relation count.toNat = true
      · have hrelations := FailsOn.readMany (hread.imp fun _ _ => decodeRelation_reads_or_fails)
          (fails_decodeRelation id kind pageCount hrefused) hleft
        have hbody : FailsOn .aborted (readBody memory nextRelationId nextPageId count)
            (encoded.flatten ++ heapFront id kind pageCount) :=
          Reads.lift_bind_fails (Memory.withCapacity_eq_ok.2 hgrants) hrelations.bind
        refine ⟨_, back, fails_readCatalog _ _ hbody, ?_⟩
        rw [hbytes]
        simp only [List.append_assoc]
      · exact ⟨_, _, fails_of_relations _ _ hgrants, hbytes⟩
  | @extensions nextRelationId nextPageId count _ encoded extensionCount back hread hall hbytes =>
      by_cases hgrants : memory.grants .relation count.toNat = true
      · have hextensions : FailsOn .aborted (decodeExtensions memory) (le32 extensionCount) := by
          refine FailsOn.of_unfinished (fun hnil => ?_) (Reads.map_fails (reads_readU32 errors _) ?_)
          · have := congrArg List.length hnil
            simp at this
          · exact FailsOn.bind (FailsOn.lift (Memory.withCapacity_of_not hrefused))
        have hbody : FailsOn .aborted (readBody memory nextRelationId nextPageId count)
            (encoded.flatten ++ le32 extensionCount) := by
          refine Reads.lift_bind_fails (Memory.withCapacity_eq_ok.2 hgrants) ?_
          rw [← hall]
          rcases readMany_reads_or_fails (hread.imp fun _ _ => decodeRelation_reads_or_fails) with
            hreads | hfails
          · exact hreads.bind_fails hextensions.bind
          · exact hfails.bind.append _
        refine ⟨_, back, fails_readCatalog _ _ hbody, ?_⟩
        rw [hbytes]
        simp only [List.append_assoc]
      · exact ⟨_, _, fails_of_relations _ _ hgrants, hbytes⟩

/-- A record that announces a count that is refused ends the process. -/
theorem decodeCatalog_of_overcommits {bytes : List UInt8} (h : Overcommits memory bytes)
    (hlt : bytes.length < 2 ^ 64) : decodeCatalog memory bytes = DbResult.aborted := by
  obtain ⟨element, count, hannounced, hrefused⟩ := h
  obtain ⟨front, back, hfails, rfl⟩ := hannounced.fails hrefused
  exact hfails.run hlt

end Refused

/-! ## The format -/

/-- What a buffer that is read holds, and what it was read in. -/
theorem stores_of_decodeCatalog {memory : Memory} {bytes : List UInt8} {catalog : Catalog}
    (h : decodeCatalog memory bytes = .ok catalog) :
    Stores catalog bytes ∧ catalog.HeapsNonempty ∧ catalog.AdmittedBy memory :=
  (@Consumes.run_finish _ _ _ _ _ errors consumes_readCatalog (Or.inl ⟨_, rfl⟩) bytes).1 catalog h

/-- A buffer is read as a catalog exactly if it stores the catalog and there is memory for it. -/
theorem decodeCatalog_eq_ok {memory : Memory} {bytes : List UInt8} {catalog : Catalog}
    (hlt : bytes.length < 2 ^ 64) :
    decodeCatalog memory bytes = .ok catalog ↔
      Stores catalog bytes ∧ catalog.HeapsNonempty ∧ catalog.AdmittedBy memory := by
  refine ⟨stores_of_decodeCatalog, ?_⟩
  rintro ⟨hbytes | ⟨hnone, hbytes⟩, hheaps, hadmitted⟩
  · exact decodeCatalog_of_encodeCatalog hbytes hheaps hadmitted hlt
  · exact decodeCatalog_of_older hbytes hnone hheaps hadmitted hlt

/-- What is read from a page in one memory is read from it in every other. -/
theorem fromPage_in_memory {memory : Memory} {page : Page} {catalog : Catalog}
    (h : fromPage memory page = .ok catalog) (memory' : Memory) :
    fromPage memory' page = .ok catalog := by
  obtain ⟨header, hheader, h⟩ := except_bind_eq_ok.1 h
  obtain ⟨⟨⟩, htype, h⟩ := except_bind_eq_ok.1 h
  obtain ⟨record, hrecord, h⟩ := except_bind_eq_ok.1 h
  obtain ⟨bytes, hbytes, h⟩ := except_bind_eq_ok.1 h
  have hsome := DbResult.okOr_eq_ok hbytes
  rw [hsome] at hrecord
  have hlen : bytes.length ≤ 4096 := Page.length_le_of_readRecord hrecord
  obtain ⟨hstores, hheaps, -⟩ := stores_of_decodeCatalog h
  have hadmitted : catalog.AdmittedBy memory' := by
    rcases hstores with hencode | ⟨-, hencode⟩
    · exact admittedBy_of_short memory' hencode (by omega)
    · refine admittedBy_of_short memory' hencode ?_
      rw [List.length_append]
      simp only [List.length_cons, List.length_nil]
      omega
  have hread := (decodeCatalog_eq_ok (by omega)).2 ⟨hstores, hheaps, hadmitted⟩
  exact except_bind_eq_ok.2 ⟨header, hheader, except_bind_eq_ok.2 ⟨(), htype,
    except_bind_eq_ok.2 ⟨_, hrecord, hread⟩⟩⟩

/-- A buffer that is refused is corrupt, or it ends the process. -/
theorem decodeCatalog_failsIn (memory : Memory) (bytes : List UInt8) :
    FailsIn (CorruptOr (Overcommits memory) bytes) (decodeCatalog memory bytes) :=
  (@Consumes.run_finish _ _ _ _ _ errors consumes_readCatalog (Or.inl ⟨_, rfl⟩) bytes).2

/-- Every buffer that is not read is reported as corrupt exactly if no count in it is too
large for the memory. -/
theorem decodeCatalog_reports_corruption {memory : Memory} {bytes : List UInt8}
    (hlt : bytes.length < 2 ^ 64) :
    FailsIn Stop.IsCorruption (decodeCatalog memory bytes) ↔ ¬ Overcommits memory bytes := by
  constructor
  · intro hfails hover
    obtain ⟨message, h⟩ := hfails _ (decodeCatalog_of_overcommits hover hlt)
    cases h
  · intro hover stop hstop
    rcases decodeCatalog_failsIn memory bytes stop hstop with hcorrupt | ⟨-, hrefused⟩
    · exact hcorrupt
    · exact absurd hrefused hover

/-- The catalog format in a given memory. A catalog can be encoded exactly when its texts and
lists fit into their length fields. A catalog whose heaps all have a page reads back from its
bytes (which must be a buffer that a machine word can index) exactly when there is memory for
its lists. The bytes of a catalog that was read are the ones it is encoded as, up to an empty
section of extensions, and every other buffer is refused as corrupt, exactly when there is
memory for every count that the buffer announces. -/
theorem catalog_format_canonical_iff (memory : Memory) :
    (∀ catalog : Catalog, (∃ bytes, encodeCatalog catalog = .ok bytes) ↔ catalog.Encodable) ∧
    (∀ catalog : Catalog, catalog.HeapsNonempty → ∀ bytes, encodeCatalog catalog = .ok bytes →
      bytes.length < 2 ^ 64 →
      (decodeCatalog memory bytes = .ok catalog ↔ catalog.AdmittedBy memory)) ∧
    ∀ bytes : List UInt8, bytes.length < 2 ^ 64 →
      (((∀ catalog, decodeCatalog memory bytes = .ok catalog →
          encodeCatalog catalog = .ok bytes ∨ encodeCatalog catalog = .ok (bytes ++ [0, 0, 0, 0])) ∧
        ∀ stop, decodeCatalog memory bytes = .error stop →
          ∃ message, stop = .error (.corruption message)) ↔
      ∀ element count, Announces bytes element count → memory.grants element count = true) := by
  refine ⟨fun catalog => encodeCatalog_isOk, ?_, ?_⟩
  · intro catalog hheaps bytes hbytes hlt
    refine ⟨fun hread => (stores_of_decodeCatalog hread).2.2, fun hadmitted => ?_⟩
    exact decodeCatalog_of_encodeCatalog hbytes hheaps hadmitted hlt
  · intro bytes hlt
    have hover : (∀ element count, Announces bytes element count →
        memory.grants element count = true) ↔ ¬ Overcommits memory bytes := by
      simp only [Overcommits, not_exists, not_and, not_not]
    rw [hover, ← decodeCatalog_reports_corruption hlt]
    refine ⟨fun h => h.2, fun hfails => ⟨fun catalog hread => ?_, hfails⟩⟩
    rcases (stores_of_decodeCatalog hread).1 with hbytes | ⟨-, hbytes⟩
    · exact Or.inl hbytes
    · exact Or.inr hbytes

/-- A catalog with a table, an index on it and an extension. -/
def sampleCatalog : Catalog where
  nextRelationId := 3
  nextPageId := 3
  relations := [⟨⟨1⟩, "t", .table, .heap [⟨1⟩], [⟨"a", "INTEGER"⟩]⟩,
    ⟨⟨2⟩, "i", .index, .bPlusTree ⟨⟨1⟩, "a", ⟨2⟩⟩, []⟩]
  extensions := [⟨"stdlib", 1, "static"⟩]

/-- It reads back with the least memory there is, and a buffer that ends within the magic
bytes is refused as corrupt. -/
theorem catalog_format_canonical_iff_sample :
    (∃ bytes, encodeCatalog sampleCatalog = .ok bytes ∧
      decodeCatalog .least bytes = .ok sampleCatalog) ∧
    ∀ stop, decodeCatalog .least [0x52, 0x44, 0x42] = .error stop →
      ∃ message, stop = .error (.corruption message) := by
  have hformat := catalog_format_canonical_iff .least
  obtain ⟨bytes, hbytes, hlen⟩ : ∃ bytes, encodeCatalog sampleCatalog = .ok bytes ∧
      bytes.length < 200 := ⟨_, rfl, by decide +kernel⟩
  refine ⟨⟨bytes, hbytes, (hformat.2.1 sampleCatalog ?_ bytes hbytes (by omega)).2
    ⟨rfl, by decide, rfl⟩⟩, ((hformat.2.2 _ (by decide)).2 ?_).2⟩
  · intro relation hrelation pages hpages
    simp only [sampleCatalog, List.mem_cons, List.not_mem_nil, or_false] at hrelation
    rcases hrelation with rfl | rfl
    · cases hpages
      exact List.cons_ne_nil _ _
    · cases hpages
  · rintro element count (hbytes | ⟨-, -, hbytes⟩ | ⟨-, -, hbytes⟩)
    all_goals cases hbytes

/-- A record of 26 bytes that announces more relations than there is memory for ends the
process. -/
theorem announced_relations_end_the_process :
    (preamble 1 1 4294967295).length = 26 ∧
    decodeCatalog .least (preamble 1 1 4294967295) = DbResult.aborted ∧
    ¬ ∀ stop, decodeCatalog .least (preamble 1 1 4294967295) = .error stop →
      ∃ message, stop = .error (.corruption message) := by
  have hover : Overcommits .least (preamble 1 1 4294967295) :=
    ⟨.relation, _, .relations (List.append_nil _).symm, by decide⟩
  have habort := decodeCatalog_of_overcommits hover (by decide)
  refine ⟨rfl, habort, fun hcorrupt => ?_⟩
  obtain ⟨message, h⟩ := hcorrupt _ habort
  cases h

end Catalog

end Rdbms
