import Rdbms.Sql.Row
import Rdbms.Tx.Contents

/-!
# Consistent databases

A database is consistent when every index is on an indexable column of a table, every
row decodes to values that fit the columns of its table, and the entries of the
indexes are those that the rows call for. A statement that adds a row or an index owes
entries to the indexes for a while; `Database.owing` counts them as if they were there
already, so that paying them back one by one keeps the database consistent.
-/

namespace Rdbms

open Library

namespace Sql

/-- The relation with the id. -/
def relationOf (schema : List Signature) (relationId : RelationId) : Option Signature :=
  schema.find? fun signature => signature.id == relationId

/-- The position of the column with the name. -/
def columnIndex (columns : List ColumnDef) (columnName : String) : Option Nat :=
  columns.findIdx? fun column => column.name == columnName

/-- The key under which a value is indexed. -/
def keyOf (value : Value) : Option IndexKey := (indexKeyFromValue value).toOption.join

/-- The entry of a row in an index on the column at a position. -/
def rowEntry (i : Nat) (row : HeapRow) : Option IndexEntry := do
  let values ← (decodeRow row.bytes).toOption
  let value ← values[i]?
  let key ← keyOf value
  return ⟨key, row.rowId⟩

/-- The entries that rows call for in an index. -/
def calledFor (schema : List Signature) (rows : List (RelationId × HeapRow)) (index : Signature) :
    List (RelationId × IndexEntry) :=
  match index.target with
  | none => []
  | some (tableId, columnName) =>
      match (relationOf schema tableId).bind fun table => columnIndex table.columns columnName with
      | none => []
      | some i => ((itemsOf tableId rows).filterMap (rowEntry i)).map (Prod.mk index.id)

/-- An index on the column of the table belongs at position `i`. -/
structure IndexedAt (schema : List Signature) (tableId : RelationId) (columnName : String)
    (table : Signature) (i : Nat) : Prop where
  found : relationOf schema tableId = some table
  kind : table.kind = .table
  position : columnIndex table.columns columnName = some i
  indexable : ∃ column, table.columns[i]? = some column ∧ ensureIndexableColumn column = .ok ()

/-- The row decodes to values that fit the columns. -/
def RowFits (host : Host) (columns : List ColumnDef) (row : HeapRow) : Prop :=
  ∃ values, decodeRow row.bytes = .ok values ∧ coerceValues host columns values = .ok values

structure Consistent (host : Host) (db : Database) : Prop where
  indexes : ∀ index ∈ db.schema, ∀ tableId columnName, index.target = some (tableId, columnName) →
    ∃ table i, IndexedAt db.schema tableId columnName table i
  rows : ∀ x ∈ db.rows, ∃ table, relationOf db.schema x.1 = some table ∧
    RowFits host table.columns x.2
  entries : db.entries.Perm (db.schema.flatMap (calledFor db.schema db.rows))

end Sql

/-- The database with entries that are still to be added. -/
def Database.owing (db : Database) (owed : List (RelationId × IndexEntry)) : Database :=
  { db with entries := owed ++ db.entries }

namespace Sql

variable {host : Host} {db : Database} {schema : List Signature}
  {rows : List (RelationId × HeapRow)}

theorem consistent_empty (host : Host) : Consistent host Database.empty :=
  ⟨nofun, nofun, List.Perm.refl _⟩

theorem indexKeyFromValue_eq (value : Value) : indexKeyFromValue value = .ok (keyOf value) := by
  cases value <;> rfl

theorem rowEntry_of_decodes {row : HeapRow} {values : List Value} {value : Value} {i : Nat}
    (hdecode : decodeRow row.bytes = .ok values) (hvalue : values[i]? = some value) :
    rowEntry i row = (keyOf value).map fun key => ⟨key, row.rowId⟩ := by
  rw [rowEntry, hdecode]
  change (values[i]? >>= _) = _
  rw [hvalue]
  cases hkey : keyOf value with
  | none => simp [hkey]
  | some key => simp [hkey]

/-! ## The entries that rows call for -/

theorem calledFor_of_indexedAt {index table : Signature} {tableId : RelationId}
    {columnName : String} {i : Nat} (htarget : index.target = some (tableId, columnName))
    (h : IndexedAt schema tableId columnName table i) :
    calledFor schema rows index =
      ((itemsOf tableId rows).filterMap (rowEntry i)).map (Prod.mk index.id) := by
  simp only [calledFor, htarget, h.found, Option.bind_some, h.position]

theorem calledFor_append (xs ys : List (RelationId × HeapRow)) (index : Signature) :
    calledFor schema (xs ++ ys) index = calledFor schema xs index ++ calledFor schema ys index := by
  rw [calledFor, calledFor, calledFor]
  split
  · rfl
  · split
    · rfl
    · rw [itemsOf_append, List.filterMap_append, List.map_append]

/-- Rows of other tables call for nothing. -/
theorem calledFor_other {index : Signature} {relationId : RelationId} {row : HeapRow}
    (h : ∀ tableId columnName, index.target = some (tableId, columnName) → tableId ≠ relationId) :
    calledFor schema [(relationId, row)] index = [] := by
  rw [calledFor]
  split
  · rfl
  · rename_i tableId columnName htarget
    split
    · rfl
    · rw [itemsOf_eq_nil]
      · rfl
      · intro x hx
        rw [List.mem_singleton.1 hx]
        exact (h tableId columnName htarget).symm

theorem calledFor_tagged {index : Signature} {x : RelationId × IndexEntry}
    (hx : x ∈ calledFor schema rows index) : x.1 = index.id := by
  rw [calledFor] at hx
  split at hx
  · cases hx
  · split at hx
    · cases hx
    · obtain ⟨entry, -, rfl⟩ := List.mem_map.1 hx
      rfl

/-- An index holds the entries that the rows of its table call for. -/
theorem Consistent.index_entries (h : Consistent host db)
    (hids : (db.schema.map Signature.id).Nodup) {index table : Signature} (hmem : index ∈ db.schema)
    {tableId : RelationId} {columnName : String} {i : Nat}
    (htarget : index.target = some (tableId, columnName))
    (hat : IndexedAt db.schema tableId columnName table i) :
    (itemsOf index.id db.entries).Perm ((itemsOf tableId db.rows).filterMap (rowEntry i)) := by
  obtain ⟨front, back, hsplit⟩ := List.append_of_mem hmem
  rw [hsplit, List.map_append, List.map_cons, List.nodup_middle, List.nodup_cons,
    ← List.map_append] at hids
  have hother : ∀ others : List Signature, (∀ other ∈ others, other ∈ front ++ back) →
      itemsOf index.id (others.flatMap (calledFor db.schema db.rows)) = [] := by
    intro others hothers
    refine itemsOf_eq_nil fun x hx heq => ?_
    obtain ⟨other, hother, hx⟩ := List.mem_flatMap.1 hx
    refine hids.1 ?_
    rw [← heq, calledFor_tagged hx]
    exact List.mem_map_of_mem (hothers other hother)
  have hitems : itemsOf index.id (db.schema.flatMap (calledFor db.schema db.rows)) =
      (itemsOf tableId db.rows).filterMap (rowEntry i) := by
    have hflat : db.schema.flatMap (calledFor db.schema db.rows) =
        (front ++ index :: back).flatMap (calledFor db.schema db.rows) := by rw [← hsplit]
    rw [hflat, List.flatMap_append, List.flatMap_cons, itemsOf_append, itemsOf_append,
      hother front fun _ hmem => List.mem_append_left _ hmem,
      hother back fun _ hmem => List.mem_append_right _ hmem, List.nil_append, List.append_nil,
      calledFor_of_indexedAt htarget hat, itemsOf_map]
  rw [← hitems]
  exact itemsOf_perm h.entries

/-! ## Adding relations, rows and entries -/

theorem relationOf_append {relationId : RelationId} {relation : Signature} (new : List Signature)
    (h : relationOf schema relationId = some relation) :
    relationOf (schema ++ new) relationId = some relation := by
  rw [relationOf] at h
  rw [relationOf, List.find?_append, h, Option.some_or]

theorem IndexedAt.append {tableId : RelationId} {columnName : String} {table : Signature} {i : Nat}
    (h : IndexedAt schema tableId columnName table i) (new : List Signature) :
    IndexedAt (schema ++ new) tableId columnName table i :=
  ⟨relationOf_append new h.found, h.kind, h.position, h.indexable⟩

/-- A new relation owes its indexes nothing; a new index owes the entries of all rows. -/
theorem Consistent.addRelation (h : Consistent host db) {relation : Signature}
    (hindex : ∀ tableId columnName, relation.target = some (tableId, columnName) →
      ∃ table i, IndexedAt db.schema tableId columnName table i) :
    Consistent host ((db.addRelation relation).owing (calledFor db.schema db.rows relation)) := by
  have hsame : ∀ index, (∀ tableId columnName, index.target = some (tableId, columnName) →
      ∃ table i, IndexedAt db.schema tableId columnName table i) →
      calledFor (db.schema ++ [relation]) db.rows index = calledFor db.schema db.rows index := by
    intro index hresolves
    cases htarget : index.target with
    | none => simp only [calledFor, htarget]
    | some target =>
        obtain ⟨table, i, hat⟩ := hresolves target.1 target.2 htarget
        rw [calledFor_of_indexedAt htarget hat, calledFor_of_indexedAt htarget (hat.append _)]
  refine ⟨?_, ?_, ?_⟩
  · intro index hmem tableId columnName htarget
    have hresolves : ∃ table i, IndexedAt db.schema tableId columnName table i := by
      rcases List.mem_append.1 hmem with hold | hnew
      · exact h.indexes index hold tableId columnName htarget
      · rw [List.mem_singleton.1 hnew] at htarget
        exact hindex tableId columnName htarget
    obtain ⟨table, i, hat⟩ := hresolves
    exact ⟨table, i, hat.append _⟩
  · intro x hx
    obtain ⟨table, htable, hfits⟩ := h.rows x hx
    exact ⟨table, relationOf_append _ htable, hfits⟩
  · change (calledFor db.schema db.rows relation ++ db.entries).Perm
      ((db.schema ++ [relation]).flatMap (calledFor (db.schema ++ [relation]) db.rows))
    have hold : db.schema.flatMap (calledFor (db.schema ++ [relation]) db.rows) =
        db.schema.flatMap (calledFor db.schema db.rows) :=
      List.flatMap_congr fun index hmem => hsame index (h.indexes index hmem)
    rw [List.flatMap_append, hold, List.flatMap_singleton, hsame relation hindex]
    exact (h.entries.append_left _).trans List.perm_append_comm

/-- A new row owes an entry to each index of its table. -/
theorem Consistent.addRow (h : Consistent host db) {relationId : RelationId} {row : HeapRow}
    {table : Signature} (htable : relationOf db.schema relationId = some table)
    (hfits : RowFits host table.columns row) :
    Consistent host ((db.addRow relationId row).owing
      (db.schema.flatMap (calledFor db.schema [(relationId, row)]))) := by
  refine ⟨h.indexes, ?_, ?_⟩
  · intro x hx
    rcases List.mem_cons.1 hx with rfl | hx
    · exact ⟨table, htable, hfits⟩
    · exact h.rows x hx
  · change (db.schema.flatMap (calledFor db.schema [(relationId, row)]) ++ db.entries).Perm
      (db.schema.flatMap (calledFor db.schema ([(relationId, row)] ++ db.rows)))
    have hsplit : db.schema.flatMap (calledFor db.schema ([(relationId, row)] ++ db.rows)) =
        db.schema.flatMap fun index => calledFor db.schema [(relationId, row)] index ++
          calledFor db.schema db.rows index :=
      List.flatMap_congr fun index _ => calledFor_append _ _ index
    rw [hsplit]
    exact (h.entries.append_left _).trans (List.flatMap_append_perm _ _ _)

/-- The order of what is owed does not matter. -/
theorem Consistent.owing_perm {owed owed' : List (RelationId × IndexEntry)}
    (h : Consistent host (db.owing owed)) (hperm : owed.Perm owed') :
    Consistent host (db.owing owed') :=
  ⟨h.indexes, h.rows, (hperm.symm.append_right _).trans h.entries⟩

/-- One of the entries is added. -/
theorem Consistent.addEntry {relationId : RelationId} {entry : IndexEntry}
    {owed : List (RelationId × IndexEntry)}
    (h : Consistent host (db.owing ((relationId, entry) :: owed))) :
    Consistent host ((db.addEntry relationId entry).owing owed) :=
  ⟨h.indexes, h.rows, List.perm_middle.trans h.entries⟩

end Sql

end Rdbms
