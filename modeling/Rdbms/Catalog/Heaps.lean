import Rdbms.Catalog.Codec

/-!
# Heaps keep a page

No operation of the catalog leaves a heap without pages, which the decoder would refuse.
-/

namespace Rdbms

open Library

namespace Catalog

/-- The operation leaves no heap without pages. -/
def KeepsHeaps (c c' : Catalog) : Prop := c.HeapsNonempty → c'.HeapsNonempty

instance : IsPreorder Catalog KeepsHeaps where
  refl _ := id
  trans _ _ _ h h' := h' ∘ h

theorem empty_heapsNonempty : empty.HeapsNonempty := by
  intro relation hrelation
  cases hrelation

theorem HeapsNonempty.congr {c c' : Catalog} (h : c.HeapsNonempty)
    (heq : c'.relations = c.relations) : c'.HeapsNonempty := by
  intro relation hrelation
  rw [heq] at hrelation
  exact h relation hrelation

theorem HeapsNonempty.append {c : Catalog} {relation : RelationInfo} (h : c.HeapsNonempty)
    (hrelation : ∀ pages, relation.storage = .heap pages → pages ≠ []) :
    HeapsNonempty { c with relations := c.relations ++ [relation] } := by
  intro relation' hmem
  rcases List.mem_append.1 hmem with hmem | hmem
  · exact h relation' hmem
  · rw [List.mem_singleton.1 hmem]
    exact hrelation

theorem mem_modifyFirst {α : Type} {p : α → Bool} {f : α → α} {xs : List α} {y : α}
    (h : y ∈ modifyFirst p f xs) : y ∈ xs ∨ ∃ x ∈ xs, y = f x := by
  induction xs with
  | nil => cases h
  | cons x xs ih =>
      rw [modifyFirst] at h
      split at h
      · rcases List.mem_cons.1 h with rfl | h
        · exact Or.inr ⟨x, List.mem_cons_self, rfl⟩
        · exact Or.inl (List.mem_cons_of_mem x h)
      · rcases List.mem_cons.1 h with rfl | h
        · exact Or.inl List.mem_cons_self
        · rcases ih h with h | ⟨x', hx', rfl⟩
          · exact Or.inl (List.mem_cons_of_mem x h)
          · exact Or.inr ⟨x', List.mem_cons_of_mem x hx', rfl⟩

theorem HeapsNonempty.setStorage {c : Catalog} {relationId : RelationId} {storage : StorageObject}
    (h : c.HeapsNonempty) (hstorage : ∀ pages, storage = .heap pages → pages ≠ []) :
    (c.setStorage relationId storage).HeapsNonempty := by
  intro relation hrelation
  rcases mem_modifyFirst hrelation with hrelation | ⟨relation', -, rfl⟩
  · exact h relation hrelation
  · exact hstorage

theorem registerExtensionMetadata_keepsHeaps (name : String) (abiVersion : UInt32) (kind : String) :
    Exec.Preserves KeepsHeaps (registerExtensionMetadata name abiVersion kind) := by
  refine Exec.Preserves.bind (Exec.Preserves.liftM _) fun _ => ?_
  refine Exec.Preserves.bind (Exec.Preserves.liftM _) fun _ => ?_
  refine Exec.Preserves.bind Exec.Preserves.get fun catalog => ?_
  cases catalog.extensionByName name with
  | some existing =>
      simp only
      split
      · exact Exec.Preserves.pure _
      · exact Exec.Preserves.liftM _
  | none =>
      refine Exec.Preserves.bind ?_ fun _ => Exec.Preserves.pure _
      exact fun c hc => hc.congr rfl

theorem allocateRelationId_keepsHeaps : Exec.Preserves KeepsHeaps allocateRelationId := by
  refine Exec.Preserves.bind Exec.Preserves.get fun catalog => ?_
  refine Exec.Preserves.bind (Exec.Preserves.liftM _) fun _ => ?_
  refine Exec.Preserves.bind ?_ fun _ => Exec.Preserves.pure _
  exact fun c hc => hc.congr rfl

theorem allocatePageId_keepsHeaps : Exec.Preserves KeepsHeaps allocatePageId := by
  refine Exec.Preserves.bind Exec.Preserves.get fun catalog => ?_
  refine Exec.Preserves.bind (Exec.Preserves.liftM _) fun _ => ?_
  refine Exec.Preserves.bind ?_ fun _ => Exec.Preserves.pure _
  exact fun c hc => hc.congr rfl

theorem createTableMetadata_keepsHeaps (name : String) (columns : List ColumnDef) :
    Exec.Preserves KeepsHeaps (createTableMetadata name columns) := by
  refine Exec.Preserves.bind (Exec.Preserves.liftM _) fun _ => ?_
  refine Exec.Preserves.bind (Exec.Preserves.liftM _) fun _ => ?_
  refine Exec.Preserves.bind Exec.Preserves.get fun catalog => ?_
  refine Exec.Preserves.bind (Exec.Preserves.liftM _) fun _ => ?_
  refine Exec.Preserves.bind allocateRelationId_keepsHeaps fun relationId => ?_
  refine Exec.Preserves.bind allocatePageId_keepsHeaps fun pageId => ?_
  refine Exec.Preserves.bind ?_ fun _ => Exec.Preserves.pure _
  intro c hc
  refine hc.append ?_
  rintro pages ⟨⟩
  exact List.cons_ne_nil _ _

theorem createIndexMetadata_keepsHeaps (name : String) (tableId : RelationId)
    (columnName : String) :
    Exec.Preserves KeepsHeaps (createIndexMetadata name tableId columnName) := by
  refine Exec.Preserves.bind (Exec.Preserves.liftM _) fun _ => ?_
  refine Exec.Preserves.bind (Exec.Preserves.liftM _) fun _ => ?_
  refine Exec.Preserves.bind Exec.Preserves.get fun catalog => ?_
  refine Exec.Preserves.bind (Exec.Preserves.liftM _) fun _ => ?_
  refine Exec.Preserves.bind (Exec.Preserves.liftM _) fun table => ?_
  refine Exec.Preserves.bind (Exec.Preserves.liftM _) fun _ => ?_
  refine Exec.Preserves.bind (Exec.Preserves.liftM _) fun _ => ?_
  refine Exec.Preserves.bind (Exec.Preserves.liftM _) fun _ => ?_
  refine Exec.Preserves.bind allocateRelationId_keepsHeaps fun relationId => ?_
  refine Exec.Preserves.bind allocatePageId_keepsHeaps fun rootPageId => ?_
  refine Exec.Preserves.bind ?_ fun _ => Exec.Preserves.pure _
  intro c hc
  exact hc.append nofun

theorem appendHeapPage_keepsHeaps (relationId : RelationId) (pageId : PageId) :
    Exec.Preserves KeepsHeaps (appendHeapPage relationId pageId) := by
  refine Exec.Preserves.bind Exec.Preserves.get fun catalog => ?_
  refine Exec.Preserves.bind (Exec.Preserves.liftM _) fun relation => ?_
  refine Exec.Preserves.bind (Exec.Preserves.liftM _) fun _ => ?_
  cases relation.storage with
  | bPlusTree storage => exact Exec.Preserves.liftM _
  | heap pages =>
      intro c hc
      refine hc.setStorage ?_
      rintro pages ⟨⟩
      simp

theorem setIndexRootPage_keepsHeaps (indexRelationId : RelationId) (rootPageId : PageId) :
    Exec.Preserves KeepsHeaps (setIndexRootPage indexRelationId rootPageId) := by
  refine Exec.Preserves.bind Exec.Preserves.get fun catalog => ?_
  refine Exec.Preserves.bind (Exec.Preserves.liftM _) fun relation => ?_
  refine Exec.Preserves.bind (Exec.Preserves.liftM _) fun _ => ?_
  cases relation.storage with
  | heap pages => exact Exec.Preserves.liftM _
  | bPlusTree storage => exact fun c hc => hc.setStorage nofun

end Catalog

end Rdbms
