import Rdbms.Catalog.Basic

/-!
# The catalog page

A catalog whose heap tables all have a page reads back from the page it is put
into.
-/

namespace Rdbms

open Library Cursor

namespace Catalog

/-- Every heap has at least one page. The decoder refuses a heap without pages. -/
def HeapsNonempty (catalog : Catalog) : Prop :=
  ∀ relation ∈ catalog.relations, ∀ pages, relation.storage = .heap pages → pages ≠ []

theorem reads_readString {s : String} {bs : List UInt8} (h : writeString s = .ok bs) :
    Reads readString bs s := by
  obtain ⟨len, hlen, h⟩ := except_bind_eq_ok.1 h
  obtain ⟨hlt, rfl⟩ := writeU16Len_eq_ok.1 hlen
  cases h
  refine Reads.bind (reads_readU16 errors _) ?_
  rw [toNat_u16Len hlt]
  exact reads_readText errors s _

theorem reads_decodePageId (page : PageId) : Reads decodePageId (le64 page.val) page :=
  Reads.map (reads_readU64 errors page.val) (Reads.pure page)

/-- Nothing in the catalog has more elements than the allocator grants at once. -/
structure AdmittedBy (memory : Memory) (catalog : Catalog) : Prop where
  relations : memory.grants .relation catalog.relations.length = true
  heapPages : ∀ relation ∈ catalog.relations,
    memory.grants .pageId relation.heapPages.length = true
  extensions : memory.grants .extension catalog.extensions.length = true

section Reads

variable {memory : Memory}

/-- A heap is read as soon as the allocator grants the memory of its pages. -/
theorem reads_decodeStorageObject {storage : StorageObject} {bs : List UInt8}
    (h : encodeStorageObject storage = .ok bs) (hpages : ∀ pages, storage = .heap pages → pages ≠ [])
    (hgrants : memory.grants .pageId storage.heapPages.length = true) :
    Reads (decodeStorageObject memory) bs storage := by
  cases storage with
  | heap pages =>
      obtain ⟨count, hcount, h⟩ := except_bind_eq_ok.1 h
      obtain ⟨hlt, rfl⟩ := writeU32Len_eq_ok.1 hcount
      cases h
      refine Reads.bind (reads_readU8 errors storageHeap) ?_
      rw [if_pos rfl]
      refine Reads.bind (reads_readU32 errors _) ?_
      rw [toNat_u32Len hlt]
      refine Reads.lift_bind (Memory.withCapacity_eq_ok.2 hgrants) ?_
      have hall : List.Forall₂ (fun page bs => Reads decodePageId bs page) pages
          (pages.map fun page => le64 page.val) :=
        List.forall₂_map_right_iff.2 (List.forall₂_same.2 fun page _ => reads_decodePageId page)
      refine Reads.map (Reads.readMany hall) ?_
      exact Reads.lift_bind (failIf_of_not (hpages pages rfl)) (Reads.pure _)
  | bPlusTree storage =>
      obtain ⟨column, hcolumn, h⟩ := except_bind_eq_ok.1 h
      cases h
      refine Reads.bind (reads_readU8 errors storageIndex) ?_
      rw [if_neg (by decide), if_pos rfl]
      refine Reads.bind (reads_readU64 errors _) ?_
      refine Reads.bind (reads_readU64 errors _) ?_
      exact Reads.map (reads_readString hcolumn) (Reads.pure _)

theorem reads_decodeColumn {column : ColumnDef} {bs : List UInt8}
    (h : encodeColumn column = .ok bs) : Reads decodeColumn bs column := by
  obtain ⟨name, hname, h⟩ := except_bind_eq_ok.1 h
  obtain ⟨typeName, htype, h⟩ := except_bind_eq_ok.1 h
  cases h
  exact Reads.bind (reads_readString hname) (Reads.map (reads_readString htype) (Reads.pure _))

theorem reads_decodeRelation {relation : RelationInfo} {bs : List UInt8}
    (h : encodeRelation relation = .ok bs)
    (hpages : ∀ pages, relation.storage = .heap pages → pages ≠ [])
    (hgrants : memory.grants .pageId relation.heapPages.length = true) :
    Reads (decodeRelation memory) bs relation := by
  obtain ⟨storage, hstorage, h⟩ := except_bind_eq_ok.1 h
  obtain ⟨name, hname, h⟩ := except_bind_eq_ok.1 h
  obtain ⟨count, hcount, h⟩ := except_bind_eq_ok.1 h
  obtain ⟨columns, hcolumns, h⟩ := except_bind_eq_ok.1 h
  obtain ⟨hlt, rfl⟩ := writeU16Len_eq_ok.1 hcount
  cases h
  refine Reads.bind (reads_readU64 errors _) ?_
  refine Reads.bind (reads_readU8 errors _) ?_
  refine Reads.lift_bind (RelationKind.fromU8_toU8 relation.kind) ?_
  refine Reads.bind (reads_decodeStorageObject hstorage hpages hgrants) ?_
  refine Reads.bind (reads_readString hname) ?_
  refine Reads.bind (reads_readU16 errors _) ?_
  rw [toNat_u16Len hlt]
  have hall : List.Forall₂ (fun column bs => Reads decodeColumn bs column) relation.columns columns :=
    (except_mapM_eq_ok.1 hcolumns).imp fun _ _ => reads_decodeColumn
  exact Reads.map (Reads.readMany hall) (Reads.pure _)

theorem reads_decodeExtension {extension : ExtensionInfo} {bs : List UInt8}
    (h : encodeExtension extension = .ok bs) : Reads decodeExtension bs extension := by
  obtain ⟨name, hname, h⟩ := except_bind_eq_ok.1 h
  obtain ⟨kind, hkind, h⟩ := except_bind_eq_ok.1 h
  cases h
  refine Reads.bind (reads_readString hname) ?_
  refine Reads.bind (reads_readU32 errors _) ?_
  exact Reads.map (reads_readString hkind) (Reads.pure _)

/-- Behind the relations the buffer ends or the extensions follow. -/
theorem toEnd_decodeExtensions {extensions : List ExtensionInfo} {bs : List UInt8}
    (h : encodeExtensions extensions = .ok bs)
    (hgrants : memory.grants .extension extensions.length = true) :
    ReadsToEnd (decodeExtensions memory) bs extensions := by
  obtain ⟨count, hcount, h⟩ := except_bind_eq_ok.1 h
  obtain ⟨encoded, hencoded, h⟩ := except_bind_eq_ok.1 h
  obtain ⟨hlt, rfl⟩ := writeU32Len_eq_ok.1 hcount
  cases h
  have hne : le32 (UInt32.ofNat extensions.length) ++ encoded.flatten ≠ [] := by
    intro hnil
    have := congrArg List.length hnil
    simp at this
  refine ReadsToEnd.of_unfinished hne (Reads.toEnd ?_)
  refine Reads.bind (reads_readU32 errors _) ?_
  rw [toNat_u32Len hlt]
  refine Reads.lift_bind (Memory.withCapacity_eq_ok.2 hgrants) ?_
  have hall : List.Forall₂ (fun extension bs => Reads decodeExtension bs extension) extensions
      encoded := (except_mapM_eq_ok.1 hencoded).imp fun _ _ => reads_decodeExtension
  exact Reads.readMany hall

theorem reads_relations {relations : List RelationInfo} {encoded : List (List UInt8)}
    (h : relations.mapM encodeRelation = .ok encoded)
    (hpages : ∀ relation ∈ relations, ∀ pages, relation.storage = .heap pages → pages ≠ [])
    (hgrants : ∀ relation ∈ relations, memory.grants .pageId relation.heapPages.length = true) :
    List.Forall₂ (fun relation bs => Reads (decodeRelation memory) bs relation) relations
      encoded := by
  have hall := except_mapM_eq_ok.1 h
  induction hall with
  | nil => exact List.Forall₂.nil
  | cons hrelation hrest ih =>
      rw [List.forall_mem_cons] at hpages hgrants
      exact List.Forall₂.cons (reads_decodeRelation hrelation hpages.1 hgrants.1)
        (ih (except_mapM_eq_ok.2 hrest) hpages.2 hgrants.2)

/-! ## The whole record -/

/-- The record of a catalog in front of its relations. -/
def preamble (nextRelationId nextPageId : UInt64) (relationCount : UInt32) : List UInt8 :=
  catalogMagic ++ (le16 catalogVersion ++ (le64 nextRelationId ++
    (le64 nextPageId ++ le32 relationCount)))

/-- What is read behind the preamble. -/
def readBody (memory : Memory) (nextRelationId nextPageId : UInt64) (relationCount : UInt32) :
    Db Cursor Catalog := do
  memory.withCapacity .relation relationCount.toNat
  let relations ← Cursor.readMany (decodeRelation memory) relationCount.toNat
  let extensions ← decodeExtensions memory
  return ⟨nextRelationId, nextPageId, relations, extensions⟩

theorem toEnd_readCatalog {nextRelationId nextPageId : UInt64} {relationCount : UInt32}
    {bs : List UInt8} {catalog : Catalog}
    (h : ReadsToEnd (readBody memory nextRelationId nextPageId relationCount) bs catalog) :
    ReadsToEnd (readCatalog memory) (preamble nextRelationId nextPageId relationCount ++ bs)
      catalog := by
  simp only [preamble, List.append_assoc]
  refine Reads.bind_toEnd (reads_readBytes errors catalogMagic) ?_
  refine Reads.lift_bind_toEnd (failIf_of_not (not_not.2 rfl)) ?_
  refine Reads.bind_toEnd (reads_readU16 errors catalogVersion) ?_
  refine Reads.lift_bind_toEnd (failIf_of_not (not_not.2 rfl)) ?_
  refine Reads.bind_toEnd (reads_readU64 errors _) ?_
  refine Reads.bind_toEnd (reads_readU64 errors _) ?_
  exact Reads.bind_toEnd (reads_readU32 errors _) h

theorem encodeCatalog_eq_ok {catalog : Catalog} {bytes : List UInt8} :
    encodeCatalog catalog = .ok bytes ↔ catalog.relations.length < 2 ^ 32 ∧ ∃ encoded extensions,
      catalog.relations.mapM encodeRelation = .ok encoded ∧
      encodeExtensions catalog.extensions = .ok extensions ∧
      bytes = preamble catalog.nextRelationId catalog.nextPageId
        (UInt32.ofNat catalog.relations.length) ++ (encoded.flatten ++ extensions) := by
  constructor
  · intro h
    obtain ⟨count, hcount, h⟩ := except_bind_eq_ok.1 h
    obtain ⟨encoded, hencoded, h⟩ := except_bind_eq_ok.1 h
    obtain ⟨extensions, hextensions, h⟩ := except_bind_eq_ok.1 h
    obtain ⟨hsize, rfl⟩ := writeU32Len_eq_ok.1 hcount
    cases h
    refine ⟨hsize, encoded, extensions, hencoded, hextensions, ?_⟩
    simp only [preamble, List.append_assoc]
  · rintro ⟨hsize, encoded, extensions, hencoded, hextensions, rfl⟩
    rw [encodeCatalog, writeU32Len_eq_ok.2 ⟨hsize, rfl⟩, hencoded, hextensions]
    simp only [preamble, List.append_assoc]
    rfl

/-- The relations and the extensions of a catalog are read, whichever bytes the extensions
are read from. -/
theorem decodeCatalog_of_relations {catalog : Catalog} {encoded : List (List UInt8)}
    {bs : List UInt8} (hsize : catalog.relations.length < 2 ^ 32)
    (hencoded : catalog.relations.mapM encodeRelation = .ok encoded)
    (hextensions : ReadsToEnd (decodeExtensions memory) bs catalog.extensions)
    (hheaps : catalog.HeapsNonempty) (hadmitted : catalog.AdmittedBy memory)
    (hlt : (preamble catalog.nextRelationId catalog.nextPageId
      (UInt32.ofNat catalog.relations.length) ++ (encoded.flatten ++ bs)).length < 2 ^ 64) :
    decodeCatalog memory (preamble catalog.nextRelationId catalog.nextPageId
      (UInt32.ofNat catalog.relations.length) ++ (encoded.flatten ++ bs)) = .ok catalog := by
  refine ReadsToEnd.run_finish errors (toEnd_readCatalog ?_) hlt
  rw [readBody, toNat_u32Len hsize]
  refine Reads.lift_bind_toEnd (Memory.withCapacity_eq_ok.2 hadmitted.relations) ?_
  refine Reads.bind_toEnd (Reads.readMany (reads_relations hencoded hheaps hadmitted.heapPages)) ?_
  exact ReadsToEnd.map hextensions (Reads.pure _)

/-- A catalog reads back from its own bytes. -/
theorem decodeCatalog_of_encodeCatalog {catalog : Catalog} {bs : List UInt8}
    (h : encodeCatalog catalog = .ok bs) (hheaps : catalog.HeapsNonempty)
    (hadmitted : catalog.AdmittedBy memory) (hlt : bs.length < 2 ^ 64) :
    decodeCatalog memory bs = .ok catalog := by
  obtain ⟨hsize, encoded, extensions, hencoded, hextensions, rfl⟩ := encodeCatalog_eq_ok.1 h
  exact decodeCatalog_of_relations hsize hencoded
    (toEnd_decodeExtensions hextensions hadmitted.extensions) hheaps hadmitted hlt

theorem encodeExtensions_nil : encodeExtensions [] = .ok [0, 0, 0, 0] := by
  decide

/-- So does a catalog without extensions from its bytes without the section of extensions. -/
theorem decodeCatalog_of_older {catalog : Catalog} {bs : List UInt8}
    (h : encodeCatalog catalog = .ok (bs ++ [0, 0, 0, 0])) (hnone : catalog.extensions = [])
    (hheaps : catalog.HeapsNonempty) (hadmitted : catalog.AdmittedBy memory)
    (hlt : bs.length < 2 ^ 64) : decodeCatalog memory bs = .ok catalog := by
  obtain ⟨hsize, encoded, extensions, hencoded, hextensions, hbytes⟩ := encodeCatalog_eq_ok.1 h
  rw [hnone, encodeExtensions_nil] at hextensions
  cases hextensions
  rw [← List.append_assoc] at hbytes
  cases List.append_cancel_right hbytes
  have hend : ReadsToEnd (decodeExtensions memory) [] catalog.extensions := by
    rw [hnone]
    exact ReadsToEnd.of_finished (Reads.pure [])
  have hread := decodeCatalog_of_relations hsize hencoded hend hheaps hadmitted
  simp only [List.append_nil] at hread
  exact hread hlt

end Reads

/-! ## Room for a stored catalog -/

/-- The encoded list is as long as its elements are together, or longer. -/
theorem sum_le_length_flatten {ε α β : Type} {encode : α → Except ε (List β)} {size : α → Nat}
    {xs : List α} {parts : List (List β)} (hparts : xs.mapM encode = .ok parts)
    (h : ∀ x part, encode x = .ok part → size x ≤ part.length) :
    (xs.map size).sum ≤ parts.flatten.length := by
  have hall := except_mapM_eq_ok.1 hparts
  clear hparts
  induction hall with
  | nil => exact Nat.le_refl 0
  | cons hx _ ih =>
      rw [List.map_cons, List.sum_cons, List.flatten_cons, List.length_append]
      exact Nat.add_le_add (h _ _ hx) ih

theorem sum_length_succ {α β : Type} (f : α → List β) (xs : List α) :
    (xs.map fun x => (f x).length + 1).sum = xs.length + (xs.flatMap f).length := by
  induction xs with
  | nil => rfl
  | cons x xs ih =>
      rw [List.map_cons, List.sum_cons, ih, List.length_cons, List.flatMap_cons, List.length_append]
      omega

theorem length_le_encoded (pageIds : List PageId) :
    pageIds.length ≤ (pageIds.map fun pageId => le64 pageId.val).flatten.length := by
  induction pageIds with
  | nil => exact Nat.le_refl 0
  | cons pageId pageIds ih =>
      rw [List.map_cons, List.flatten_cons, List.length_append, length_le64, List.length_cons]
      omega

theorem length_heapPages_lt {relation : RelationInfo} {bytes : List UInt8}
    (h : encodeRelation relation = .ok bytes) : relation.heapPages.length + 1 ≤ bytes.length := by
  obtain ⟨storage, hstorage, h⟩ := except_bind_eq_ok.1 h
  obtain ⟨name, -, h⟩ := except_bind_eq_ok.1 h
  obtain ⟨count, -, h⟩ := except_bind_eq_ok.1 h
  obtain ⟨columns, -, h⟩ := except_bind_eq_ok.1 h
  have hpages : relation.heapPages.length ≤ storage.length := by
    rw [RelationInfo.heapPages]
    cases hkind : relation.storage with
    | bPlusTree index => exact Nat.zero_le _
    | heap pageIds =>
        rw [hkind] at hstorage
        obtain ⟨pageCount, -, hstorage⟩ := except_bind_eq_ok.1 hstorage
        cases hstorage
        have hpages := length_le_encoded pageIds
        simp only [List.length_append]
        exact Nat.le_trans hpages (by omega)
  cases h
  simp only [List.length_append, length_le64]
  omega

/-- The elements of a catalog are fewer than the bytes of its record. -/
theorem length_elements_le {catalog : Catalog} {bytes : List UInt8}
    (h : encodeCatalog catalog = .ok bytes) :
    catalog.relations.length + (catalog.relations.flatMap RelationInfo.heapPages).length +
      catalog.extensions.length ≤ bytes.length := by
  obtain ⟨-, encoded, extensions, hencoded, hextensions, rfl⟩ := encodeCatalog_eq_ok.1 h
  have hrelations := sum_le_length_flatten hencoded fun relation part => length_heapPages_lt
  rw [sum_length_succ] at hrelations
  obtain ⟨count, -, hextensions⟩ := except_bind_eq_ok.1 hextensions
  obtain ⟨parts, hparts, hextensions⟩ := except_bind_eq_ok.1 hextensions
  have hone : ∀ extension part, encodeExtension extension = .ok part → 1 ≤ part.length := by
    intro extension part hpart
    obtain ⟨name, -, hpart⟩ := except_bind_eq_ok.1 hpart
    obtain ⟨kind, -, hpart⟩ := except_bind_eq_ok.1 hpart
    cases hpart
    simp only [List.length_append, length_le32]
    omega
  have hcount := sum_le_length_flatten hparts hone
  rw [List.map_const', List.sum_replicate_nat, Nat.mul_one] at hcount
  cases hextensions
  simp only [List.length_append]
  omega

/-- A record of a few bytes asks for no more memory than there always is. -/
theorem admittedBy_of_short (memory : Memory) {catalog : Catalog} {bytes : List UInt8}
    (h : encodeCatalog catalog = .ok bytes) (hlt : bytes.length < 2 ^ 16) :
    catalog.AdmittedBy memory := by
  have hlen := length_elements_le h
  refine ⟨memory.ordinary _ _ (by omega), fun relation hrelation => memory.ordinary _ _ ?_,
    memory.ordinary _ _ (by omega)⟩
  have hle := (List.sublist_flatten_of_mem (List.mem_map_of_mem (f := RelationInfo.heapPages)
    hrelation)).length_le
  rw [← List.flatMap_def] at hle
  omega

/-! ## Catalogs that do not fit -/

theorem writeString_onlyUser (value : String) : DbResult.OnlyUser (writeString value) :=
  (writeU16Len_onlyUser _ _).bind fun _ _ => DbResult.onlyUser_ok _

theorem encodeStorageObject_onlyUser (storage : StorageObject) :
    DbResult.OnlyUser (encodeStorageObject storage) := by
  cases storage with
  | heap pages => exact (writeU32Len_onlyUser _ _).bind fun _ _ => DbResult.onlyUser_ok _
  | bPlusTree storage => exact (writeString_onlyUser _).bind fun _ _ => DbResult.onlyUser_ok _

theorem encodeRelation_onlyUser (relation : RelationInfo) :
    DbResult.OnlyUser (encodeRelation relation) := by
  refine (encodeStorageObject_onlyUser _).bind fun _ _ => ?_
  refine (writeString_onlyUser _).bind fun _ _ => ?_
  refine (writeU16Len_onlyUser _ _).bind fun _ _ => ?_
  refine (DbResult.onlyUser_mapM fun column _ => ?_).bind fun _ _ => DbResult.onlyUser_ok _
  refine (writeString_onlyUser _).bind fun _ _ => ?_
  exact (writeString_onlyUser _).bind fun _ _ => DbResult.onlyUser_ok _

theorem encodeExtensions_onlyUser (extensions : List ExtensionInfo) :
    DbResult.OnlyUser (encodeExtensions extensions) := by
  refine (writeU32Len_onlyUser _ _).bind fun _ _ => ?_
  refine (DbResult.onlyUser_mapM fun extension _ => ?_).bind fun _ _ => DbResult.onlyUser_ok _
  refine (writeString_onlyUser _).bind fun _ _ => ?_
  exact (writeString_onlyUser _).bind fun _ _ => DbResult.onlyUser_ok _

/-- Putting a catalog into its page fails only because it is too large. -/
theorem toPage_onlyUser (catalog : Catalog) : DbResult.OnlyUser catalog.toPage := by
  refine DbResult.OnlyUser.bind ?_ fun bytes _ => ?_
  · refine (writeU32Len_onlyUser _ _).bind fun _ _ => ?_
    refine (DbResult.onlyUser_mapM fun relation _ => encodeRelation_onlyUser relation).bind
      fun _ _ => ?_
    exact (encodeExtensions_onlyUser _).bind fun _ _ => DbResult.onlyUser_ok _
  · exact (Page.insertRecord_new_onlyUser _ _ _).bind fun _ _ => DbResult.onlyUser_ok _

theorem toPage_eq_ok {catalog : Catalog} {page : Page} (h : catalog.toPage = .ok page) :
    ∃ bytes, catalog.encodeCatalog = .ok bytes ∧ page.Single catalogPageId .catalog bytes := by
  obtain ⟨bytes, hbytes, h⟩ := except_bind_eq_ok.1 h
  refine ⟨bytes, hbytes, ?_⟩
  rcases Page.insertRecord_new catalogPageId .catalog bytes with ⟨message, hfail⟩ | ⟨q, hq, hsingle⟩
  · rw [Exec.toExcept, hfail] at h
    cases h
  · rw [Exec.toExcept, hq] at h
    cases h
    exact hsingle

theorem toPage_of_fits {catalog : Catalog} {bytes : List UInt8}
    (h : catalog.encodeCatalog = .ok bytes) (hfit : bytes.length ≤ Page.maxRecord) :
    ∃ page, catalog.toPage = .ok page := by
  obtain ⟨q, hq, -⟩ := Page.insertRecord_new_of_fits catalogPageId .catalog hfit
  refine ⟨q, except_bind_eq_ok.2 ⟨bytes, h, ?_⟩⟩
  rw [Exec.toExcept, hq]
  rfl

theorem toPage_validAs {catalog : Catalog} {page : Page} (h : catalog.toPage = .ok page) :
    page.ValidAs catalogPageId := by
  obtain ⟨bytes, -, hsingle⟩ := toPage_eq_ok h
  obtain ⟨header, hvalid, hid, -⟩ := hsingle.valid
  exact ⟨header, hvalid, hid⟩

/-- A catalog reads back from the page it is put into. -/
theorem fromPage_of_toPage (memory : Memory) {catalog : Catalog} {page : Page}
    (h : catalog.toPage = .ok page) (hheaps : catalog.HeapsNonempty) :
    fromPage memory page = .ok catalog := by
  obtain ⟨bytes, hbytes, hsingle⟩ := toPage_eq_ok h
  obtain ⟨header, hvalid, -, htype⟩ := hsingle.valid
  have hlen : bytes.length ≤ 4096 := Page.length_le_of_readRecord hsingle.readRecord
  rw [fromPage, (Page.header_eq_ok_iff page header).2 hvalid.toShape]
  simp only [bind, Except.bind]
  rw [failIf_of_not (not_not.2 htype)]
  simp only [hsingle.readRecord, DbResult.okOr]
  exact decodeCatalog_of_encodeCatalog hbytes hheaps (admittedBy_of_short memory hbytes (by omega))
    (by omega)

end Catalog

end Rdbms
