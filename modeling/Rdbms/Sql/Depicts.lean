import Rdbms.Library.Matching
import Rdbms.Sql.Ideal
import Rdbms.Sql.Registry
import Rdbms.Tx.Outcomes

/-!
# What a catalog depicts

`Depicts` relates a catalog to an ideal database with the same relations, in the order in
which they were created, and the same extensions. What the ideal database looks up and checks
then comes out as it does in the catalog.
-/

namespace Rdbms

namespace Sql

open Library Disk

/-- The relation as the ideal database has it. -/
inductive Described (schema : List Signature) : Signature → Relation → Prop
  | table (id : RelationId) (name : String) (columns : List ColumnDef) :
      Described schema ⟨id, name, .table, columns, none⟩ ⟨id.val.toNat, name, .table columns⟩
  | index (id : RelationId) (name : String) {tableId : RelationId} {table : String} (column : String)
      (h : nameOf schema tableId = some table) :
      Described schema ⟨id, name, .index, [⟨column, "INDEX_KEY"⟩], some (tableId, column)⟩
        ⟨id.val.toNat, name, .index table column⟩

/-- The standard extension as a catalog lists it. -/
def installed (stdlib : Bool) : List ExtensionInfo :=
  if stdlib then [⟨"stdlib", rdbmsExtAbiVersion, ExtensionKind.asStr .static⟩] else []

structure Depicts (c : Catalog) (ideal : Ideal) : Prop where
  relations : List.Forall₂ (Described c.schema) c.schema ideal.relations
  next : c.nextRelationId.toNat = ideal.relations.length + 1
  extensions : c.extensions = installed ideal.stdlib

theorem depicts_empty : Depicts Catalog.empty Ideal.empty := ⟨List.Forall₂.nil, rfl, rfl⟩

/-! ## Relations -/

section Described

variable {schema : List Signature} {signature : Signature} {relation : Relation}

theorem Described.name_eq (h : Described schema signature relation) :
    relation.name = signature.name := by
  cases h with
  | table id name columns => rfl
  | index id name column h => rfl

theorem Described.columns_eq (h : Described schema signature relation) :
    relation.columns = signature.columns := by
  cases h with
  | table id name columns => rfl
  | index id name column h => rfl

theorem Described.number_eq (h : Described schema signature relation) :
    relation.number = signature.id.val.toNat := by
  cases h with
  | table id name columns => rfl
  | index id name column h => rfl

theorem Described.ensureTable_of_table (h : Described schema signature relation)
    (hkind : signature.kind = .table) : relation.ensureTable = .ok () := by
  cases h with
  | table id name columns => rfl
  | index id name column h => cases hkind

theorem Described.ensureTable_of_not (h : Described schema signature relation)
    (hkind : signature.kind ≠ .table) :
    relation.ensureTable = DbResult.user s!"relation is not a heap table: {signature.id.val}" := by
  cases h with
  | table id name columns => exact absurd rfl hkind
  | index id name column h => rfl

/-- A relation of the catalog is a heap table when it is one in the ideal database. -/
theorem Described.ensureHeapRelation {c : Catalog} {relation : RelationInfo} {other : Relation}
    (h : Described schema relation.signature other)
    (hfound : c.relationById relation.id = some relation) :
    c.ensureHeapRelation relation.id = other.ensureTable := by
  rw [Catalog.ensureHeapRelation, hfound]
  change failIf (relation.isHeapTable = false) _ = _
  by_cases hkind : relation.kind = .table
  · rw [h.ensureTable_of_table hkind, failIf_of_not (by simp [RelationInfo.isHeapTable, hkind])]
  · rw [h.ensureTable_of_not hkind, failIf_of (by simp [RelationInfo.isHeapTable, hkind])]
    rfl

theorem nameOf_append {relationId : RelationId} {table : String} (new : List Signature)
    (h : nameOf schema relationId = some table) : nameOf (schema ++ new) relationId = some table := by
  obtain ⟨signature, hfound, hname⟩ := Option.map_eq_some_iff.1 h
  rw [nameOf, relationOf_append new hfound, Option.map_some, hname]

theorem Described.append (h : Described schema signature relation) (new : List Signature) :
    Described (schema ++ new) signature relation := by
  cases h with
  | table id name columns => exact table id name columns
  | index id name column h => exact index id name column (nameOf_append new h)

/-- It is the index on the column of the table. -/
theorem Described.definition_iff (h : Described schema signature relation) {tableId : RelationId}
    {table columnName : String} (hname : ∀ i, nameOf schema i = some table ↔ i = tableId) :
    relation.definition = .index table columnName ↔
      signature.target = some (tableId, columnName) := by
  cases h with
  | table id name columns => simp
  | @index id name tableId' table' column h =>
      simp only [Definition.index.injEq, Option.some.injEq, Prod.mk.injEq]
      refine and_congr_left fun _ => ?_
      rw [← hname, h, Option.some.injEq]

end Described

/-! ## Looking things up -/

section Lists

variable {α β : Type} {R : α → β → Prop} {xs : List α} {ys : List β} {p : α → Bool} {q : β → Bool}

theorem forall₂_find? (h : List.Forall₂ R xs ys) (hpq : ∀ a b, R a b → p a = q b) :
    Option.Rel R (xs.find? p) (ys.find? q) := by
  induction h with
  | nil => exact Option.Rel.none
  | @cons a b xs ys hab _ ih =>
      rw [List.find?_cons, List.find?_cons, ← hpq a b hab]
      cases p a with
      | true => exact Option.Rel.some hab
      | false => exact ih

theorem forall₂_any (h : List.Forall₂ R xs ys) (hpq : ∀ a b, R a b → p a = q b) :
    xs.any p = ys.any q := by
  induction h with
  | nil => rfl
  | cons hab _ ih => rw [List.any_cons, List.any_cons, hpq _ _ hab, ih]

theorem okOr_alike {a? : Option α} {b? : Option β} (stop : Stop) (h : Option.Rel R a? b?) :
    Alike R (DbResult.okOr a? (.error stop)) (DbResult.okOr b? (.error stop)) := by
  cases h with
  | some h => exact Alike.ok h
  | none => exact Alike.error stop

end Lists

section Depicts

variable {c c' : Catalog} {ideal : Ideal} {store : TransactionalStore FileId}

theorem Depicts.infos (h : Depicts c ideal) :
    List.Forall₂ (fun relation other => Described c.schema relation.signature other) c.relations
      ideal.relations := List.forall₂_map_left_iff.1 h.relations

theorem Depicts.lookup (h : Depicts store.store.catalog ideal) (table : String) :
    Alike (fun relation other => Described store.store.catalog.schema relation.signature other)
      (lookupRelation store table) (ideal.lookup table) := by
  refine okOr_alike _ (forall₂_find? h.infos fun relation other hother => ?_)
  rw [hother.name_eq]
  rfl

theorem Depicts.ensureFree (h : Depicts c ideal) (name : String) :
    ideal.ensureFree name = failIf (c.relationByName name).isSome
      (DbResult.user s!"relation already exists: {name}") := by
  have hany : ideal.relations.any (fun relation => relation.name == name) =
      (c.relationByName name).isSome := by
    rw [Catalog.relationByName, List.isSome_find?]
    refine (forall₂_any h.infos fun relation other hother => ?_).symm
    rw [hother.name_eq]
    rfl
  rw [Ideal.ensureFree, hany]

theorem Depicts.tableCheck (h : Depicts c ideal) (host : Host) (name : String)
    (columns : List ColumnDef) :
    ideal.respond host (.createTable name columns) = (do
      c.tableCheck name columns
      return (.statementComplete 0, ideal.add name (.table columns))) := by
  rw [Ideal.respond, h.ensureFree, Catalog.tableCheck]
  simp only [bind_assoc]

/-- An index of the table on the column, in the catalog and in the ideal database. -/
theorem Depicts.indexed (h : Depicts c ideal) {relationId : RelationId} {table : String}
    (hname : ∀ i, nameOf c.schema i = some table ↔ i = relationId) (columnName : String) :
    ((c.indexesOnTable relationId).any fun relation =>
        relation.indexStorage.any fun storage => storage.columnName == columnName) =
      ideal.relations.any fun other => other.definition = .index table columnName := by
  rw [Catalog.indexesOnTable, List.any_filter]
  refine forall₂_any h.infos fun relation other hother => ?_
  rw [Bool.eq_iff_iff, decide_eq_true_eq, hother.definition_iff hname]
  obtain ⟨id, name, kind, storage, columns⟩ := relation
  cases storage with
  | heap pageIds =>
      simp [RelationInfo.indexStorage, StorageObject.indexStorage, RelationInfo.signature,
        StorageObject.target]
  | bPlusTree storage =>
      obtain rfl : kind = .index := by
        cases hother
        rfl
      simp [RelationInfo.indexStorage, StorageObject.indexStorage, RelationInfo.signature,
        StorageObject.target]

/-- The checks that remain when the table and its column have been found. -/
theorem Depicts.indexCheck (h : Depicts c ideal) {relation : RelationInfo} {other : Relation}
    (hother : Described c.schema relation.signature other)
    (hfound : c.relationById relation.id = some relation) (hkind : relation.kind = .table)
    (hnames : ∀ i, nameOf c.schema i = some relation.name ↔ i = relation.id) {columnName : String}
    (hcolumn : ∃ column ∈ relation.columns, column.name = columnName) (name : String) :
    c.indexCheck name relation.id columnName = (do
      validateName "index" name
      validateName "column" columnName
      ideal.ensureFree name
      ideal.ensureUnindexed other columnName) := by
  have hheap : ¬ relation.isHeapTable = false := by simp [RelationInfo.isHeapTable, hkind]
  have hthere : ¬ (relation.columns.all fun column => column.name != columnName) = true := by
    obtain ⟨column, hmem, hcolumn⟩ := hcolumn
    intro hall
    have hne := List.all_eq_true.1 hall column hmem
    simp [hcolumn] at hne
  have hname : other.name = relation.name := hother.name_eq
  have hnumber : other.number = relation.id.val.toNat := hother.number_eq
  rw [Catalog.indexCheck, h.ensureFree, Ideal.ensureUnindexed, hname, hnumber, ← h.indexed hnames]
  refine bind_congr fun _ => bind_congr fun _ => bind_congr fun _ => ?_
  rw [hfound]
  change (failIf (relation.isHeapTable = false) _ >>= fun _ => failIf _ _ >>= _) = _
  rw [failIf_of_not hheap]
  change (failIf _ _ >>= _) = _
  rw [failIf_of_not hthere]
  rfl

end Depicts

/-! ## Columns -/

section Columns

variable {schema : List Signature} {relation : RelationInfo} {other : Relation}

theorem Described.column (h : Described schema relation.signature other) (columnName : String) :
    Alike (fun i column => columnIndex relation.columns columnName = some i ∧
        relation.columns[i]? = some column)
      (resolveColumnIndex relation columnName) (other.column columnName) := by
  have hcolumns : other.columns = relation.columns := h.columns_eq
  have hname : other.name = relation.name := h.name_eq
  rw [resolveColumnIndex, Relation.column, hcolumns, hname]
  refine okOr_alike _ ?_
  rw [List.find?_eq_bind_findIdx?_getElem?]
  change Option.Rel _ (columnIndex relation.columns columnName) ((columnIndex _ columnName).bind _)
  cases hindex : columnIndex relation.columns columnName with
  | none => exact Option.Rel.none
  | some i =>
      have hcolumn := List.getElem?_eq_getElem (columnIndex_lt hindex)
      rw [Option.bind_some, hcolumn]
      exact Option.Rel.some ⟨rfl, hcolumn⟩

theorem filterMap_of_forall₂ {α β : Type} {f : α → Option β} {xs : List α} {ys : List β}
    (h : List.Forall₂ (fun x y => f x = some y) xs ys) : xs.filterMap f = ys := by
  induction h with
  | nil => rfl
  | cons hxy _ ih => rw [List.filterMap_cons_some hxy, ih]

theorem Described.projected (h : Described schema relation.signature other)
    (projection : Projection) :
    Alike (fun indexes columns => columnsAt relation indexes =
        columns.map fun column => ⟨column.name, column.typeName⟩)
      (resolveProjection relation projection) (other.projected projection) := by
  cases projection with
  | all =>
      refine Alike.ok ?_
      rw [columnsAt, filterMap_range_getElem?, h.columns_eq]
      rfl
  | columns names =>
      have hall : Alike (List.Forall₂ fun i column => relation.columns[i]? = some column)
          (names.mapM (resolveColumnIndex relation)) (names.mapM other.column) :=
        Alike.mapM fun columnName _ => (h.column columnName).imp fun _ _ _ _ hi => hi.2
      refine hall.imp fun indexes columns _ _ hcolumns => ?_
      rw [columnsAt, filterMap_of_forall₂ hcolumns]

theorem Described.selection (h : Described schema relation.signature other)
    (selection : Option Selection) :
    Alike (fun _ _ => True) (resolveSelection relation selection) (other.checkSelection selection) := by
  cases selection with
  | none => exact Alike.ok trivial
  | some wanted => exact (h.column wanted.column).bind fun _ _ _ _ _ => Alike.ok trivial

/-- The key of an index cannot be indexed. -/
theorem Described.kind_of_indexable {signature : Signature} (h : Described schema signature other)
    {i : Nat} {column : ColumnDef} (hcolumn : signature.columns[i]? = some column)
    (hindexable : ensureIndexableColumn column = .ok ()) : signature.kind = .table := by
  cases h with
  | table id name columns => rfl
  | index id name columnName hname =>
      obtain rfl := List.mem_singleton.1 (List.mem_of_getElem? hcolumn)
      rw [ensureIndexableColumn, if_neg (show "INDEX_KEY" ∉ ["INT", "INTEGER", "TEXT"] by decide)]
        at hindexable
      cases hindexable

end Columns

/-! ## Functions -/

theorem names_stdlib : (stdlibFunctions.map fun function => normalizeName function.name).Nodup := by
  decide

/-- Loading the standard extension makes its functions known. -/
theorem loadInstalled_stdlib : loadInstalled (installed true) ExtensionRegistry.new =
    (.ok (), ExtensionRegistry.new.extended stdlibExtension) := by
  have hok : (ExtensionRegistry.load stdlibExtension ExtensionRegistry.new).1.isOk = true := by
    decide
  have hload : ExtensionRegistry.load stdlibExtension ExtensionRegistry.new =
      (.ok (), ExtensionRegistry.new.extended stdlibExtension) := by
    rcases ExtensionRegistry.load_cases ExtensionRegistry.new stdlibExtension with
      ⟨message, hrun⟩ | ⟨hloaded, -⟩ | ⟨-, -, hrun⟩
    · rw [hrun] at hok
      cases hok
    · exact absurd hloaded (by decide)
    · exact hrun
  have hname : builtinExtensionDescriptor "stdlib" = .ok stdlibExtension := by
    rw [builtinExtensionDescriptor, if_pos (by decide)]
  have habi : ¬ stdlibExtension.abiVersion ≠ rdbmsExtAbiVersion := not_not.2 rfl
  simp only [installed, if_true, loadInstalled, Exec.bind_apply, Exec.liftM_apply, hname,
    failIf_of_not (not_not.2 rfl), failIf_of_not habi, hload, Exec.pure_apply]

/-- The functions that the catalog makes known are those of the ideal database. -/
theorem registry_of_installed (stdlib : Bool) : ∃ registry,
    registryFromInstalledExtensions (installed stdlib) = .ok registry ∧
      ∀ name, registry.scalarFunction name =
        functionNamed (if stdlib then stdlibFunctions else []) name := by
  cases stdlib with
  | false => exact ⟨ExtensionRegistry.new, rfl, fun name => Std.TreeMap.getElem?_emptyc⟩
  | true =>
      refine ⟨ExtensionRegistry.new.extended stdlibExtension, ?_, fun name => ?_⟩
      · rw [registryFromInstalledExtensions, Exec.toExcept, loadInstalled_stdlib]
        rfl
      · rw [if_pos rfl, functionNamed]
        change (ExtensionRegistry.insertFunctions ∅ stdlibFunctions)[normalizeName name]? = _
        rcases ExtensionRegistry.lookup_insertFunctions ∅ stdlibFunctions (normalizeName name) with
          ⟨function, hmem, hname, hlookup⟩ | ⟨hnone, hlookup⟩
        · rw [hlookup]
          cases hfind : stdlibFunctions.find? fun f => normalizeName f.name == normalizeName name with
          | none => exact absurd hname (by simpa using List.find?_eq_none.1 hfind function hmem)
          | some found =>
              have hsame : normalizeName found.name = normalizeName name := by
                simpa using List.find?_some hfind
              rw [List.inj_on_of_nodup_map names_stdlib hmem (List.mem_of_find?_eq_some hfind)
                (hname.trans hsame.symm)]
        · rw [hlookup, Std.TreeMap.getElem?_emptyc, eq_comm, List.find?_eq_none]
          intro function hmem
          simpa using hnone function hmem

/-- A function is called with the same outcome. -/
theorem Depicts.call {store : TransactionalStore FileId} {ideal : Ideal}
    (h : Depicts store.store.catalog ideal) (name : String) (args : List Value) :
    executeSelectFunction store name args = ideal.call name args := by
  obtain ⟨registry, hregistry, hfunction⟩ := registry_of_installed ideal.stdlib
  rw [executeSelectFunction, h.extensions, hregistry]
  change (registry.callScalar name args >>= _) = _
  rw [ExtensionRegistry.callScalar, hfunction]
  change _ = (DbResult.okOr (functionNamed ideal.functions name) _ >>= _)
  rw [← Ideal.functions]
  cases hfound : functionNamed ideal.functions name with
  | none => rfl
  | some function =>
      simp only [bind_assoc]
      rfl

/-- A catalog with the extensions of an ideal database takes the standard extension. -/
theorem Depicts.extensionCheck {c : Catalog} (h : Depicts c ideal) :
    c.extensionCheck "stdlib" rdbmsExtAbiVersion (ExtensionKind.asStr .static) = .ok () ∧
      c.withExtension "stdlib" rdbmsExtAbiVersion (ExtensionKind.asStr .static) = installed true := by
  rw [Catalog.extensionCheck, Catalog.withExtension, Catalog.extensionByName, h.extensions]
  cases ideal.stdlib with
  | false => exact ⟨rfl, rfl⟩
  | true => exact ⟨rfl, rfl⟩

/-! ## Changes -/

section Depicts

variable {c c' : Catalog} {ideal : Ideal}

/-- Only the relations and what has been handed out are depicted. -/
theorem Depicts.congr (h : Depicts c ideal) (hschema : c'.schema = c.schema)
    (hregister : c.SameRegister c') : Depicts c' ideal where
  relations := by
    rw [hschema]
    exact h.relations
  next := by
    rw [hregister.nextRelationId]
    exact h.next
  extensions := hregister.extensions.trans h.extensions

/-- A relation has been created. -/
theorem Depicts.create (h : Depicts c ideal) {relation : RelationInfo} {pageId : PageId}
    (hcreated : Catalog.Created c relation pageId c') {definition : Definition}
    (hdescribed : Described c.schema relation.signature
      ⟨relation.id.val.toNat, relation.name, definition⟩) :
    Depicts c' (ideal.add relation.name definition) := by
  have hschema : c'.schema = c.schema ++ [relation.signature] := by
    rw [Catalog.schema, hcreated.relations, List.map_append]
    rfl
  have hnumber : relation.id.val.toNat = ideal.relations.length + 1 := by
    rw [hcreated.id]
    exact h.next
  rw [hnumber] at hdescribed
  constructor
  · rw [hschema]
    refine List.rel_append ?_ (List.Forall₂.cons (hdescribed.append _) List.Forall₂.nil)
    exact h.relations.imp fun _ _ hold => hold.append _
  · rw [hcreated.nextRelationId, h.next, Ideal.add, List.length_append]
    rfl
  · exact hcreated.extensions.trans h.extensions

end Depicts

end Sql

end Rdbms
