import Rdbms.Catalog.Direct
import Rdbms.Tx.Operations
import Rdbms.Tx.Schema

/-!
# Working catalogs that have not been saved

An operation of a transaction changes the working catalog before it stages the catalog page
again. When the operation fails in between, the catalog page that the transaction sees is
behind its working catalog, until a later operation saves the catalog. Apart from that the
page stays up to date: no operation stages anything else under its id.
-/

namespace Rdbms

open Library Disk

/-! ## The counter of page ids -/

namespace Catalog

/-- Page ids are handed out and not taken back. -/
def HandsOut (c c' : Catalog) : Prop := c.nextPageId.toNat ≤ c'.nextPageId.toNat

instance : IsPreorder Catalog HandsOut where
  refl _ := Nat.le_refl _
  trans _ _ _ := Nat.le_trans

theorem allocatePageId_handsOut : Exec.Preserves HandsOut allocatePageId := by
  intro c
  by_cases hroom : c.nextPageId.toNat + 1 < 2 ^ 64
  · rcases hrun : allocatePageId c with ⟨stop | id, c'⟩
    · rw [allocatePageId_of_room hroom] at hrun
      cases hrun
    · exact (Nat.le_succ _).trans (allocatePageId_eq_ok hrun).2.2.ge
  · rw [allocatePageId_of_full hroom]
    exact refl_of HandsOut c

theorem appendHeapPage_handsOut (relationId : RelationId) (pageId : PageId) :
    Exec.Preserves HandsOut (appendHeapPage relationId pageId) := by
  refine Exec.Preserves.bind Exec.Preserves.get fun c => ?_
  refine Exec.Preserves.bind (Exec.Preserves.liftM _) fun relation => ?_
  refine Exec.Preserves.bind (Exec.Preserves.liftM _) fun _ => ?_
  cases relation.storage with
  | heap pages => exact fun c => Nat.le_refl _
  | bPlusTree storage => exact Exec.Preserves.liftM _

theorem setIndexRootPage_handsOut (indexRelationId : RelationId) (rootPageId : PageId) :
    Exec.Preserves HandsOut (setIndexRootPage indexRelationId rootPageId) := by
  refine Exec.Preserves.bind Exec.Preserves.get fun c => ?_
  refine Exec.Preserves.bind (Exec.Preserves.liftM _) fun relation => ?_
  refine Exec.Preserves.bind (Exec.Preserves.liftM _) fun _ => ?_
  cases relation.storage with
  | heap pages => exact Exec.Preserves.liftM _
  | bPlusTree storage => exact fun c => Nat.le_refl _

end Catalog

namespace Transaction

/-- The catalog page that the transaction sees, staged or stored, holds its working catalog. -/
def SeesCatalog (s : Transaction FileId × Disk) : Prop :=
  ∃ page, visible s catalogPageId = some page ∧
    ∀ memory, Catalog.fromPage memory page = .ok s.1.workingCatalog

variable {α β : Type} {s t : Transaction FileId × Disk} {pageId : PageId}

/-! ## Steps that leave the catalog page alone -/

/-- The working catalog stays, and so does an up-to-date catalog page. -/
structure Spares (s t : Transaction FileId × Disk) : Prop where
  manager : t.1.manager = s.1.manager
  catalog : t.1.workingCatalog = s.1.workingCatalog
  sees : SeesCatalog s → SeesCatalog t

instance : IsPreorder (Transaction FileId × Disk) Spares where
  refl _ := ⟨rfl, rfl, id⟩
  trans _ _ _ h h' := ⟨h'.manager.trans h.manager, h'.catalog.trans h.catalog, h'.sees ∘ h.sees⟩

theorem Spares.of_visible (hmanager : t.1.manager = s.1.manager)
    (hcatalog : t.1.workingCatalog = s.1.workingCatalog)
    (hvisible : visible t catalogPageId = visible s catalogPageId) : Spares s t := by
  refine ⟨hmanager, hcatalog, ?_⟩
  rintro ⟨page, hpage, hc⟩
  exact ⟨page, hvisible.trans hpage, by rwa [hcatalog]⟩

theorem loadPage_spares (pageId : PageId) :
    Exec.Preserves Spares (loadPage pageId : Db (Transaction FileId × Disk) _) := by
  intro s
  have htx : (loadPage pageId s).2.1 = s.1 := loadPage_eq_tx Prod.mk.eta.symm
  refine Spares.of_visible (by rw [htx]) (by rw [htx]) (visible_congr (by rw [htx]) ?_)
  exact (loadPage_staging pageId s).disk.files.data

theorem stage_spares (h : pageId ≠ catalogPageId) (page : Page) :
    Exec.Preserves Spares (stage pageId page : Db (Transaction FileId × Disk) _) := by
  rintro ⟨tx, d⟩
  refine Spares.of_visible rfl rfl ?_
  exact (visible_stage tx d pageId page catalogPageId).trans (if_neg h.symm)

theorem storeNode_spares (h : pageId ≠ catalogPageId) (node : BTreeNode) :
    Exec.Preserves Spares (storeNode pageId node : Db (Transaction FileId × Disk) _) := by
  intro s
  refine Exec.rel_check fun page hpage => Exec.rel_check fun header hheader => ?_
  obtain ⟨header', hvalid, hid, -⟩ := (nodeToPage_eq_ok hpage).valid
  have hsame := hvalid.toShape.unique ((Page.header_eq_ok_iff _ _).1 hheader)
  exact stage_spares (by rwa [← hsame, hid]) page s

/-- The pages of a table do not include the catalog page. -/
theorem insertIntoPages_spares (bytes : List UInt8) {pageIds : List PageId}
    (h : catalogPageId ∉ pageIds) : Exec.Preserves Spares
      (insertIntoPages bytes pageIds : Db (Transaction FileId × Disk) _) := by
  refine insertIntoPages_preserves loadPage_spares ?_
  intro pageId s page t slotId page' hmem _ _
  refine stage_spares ?_ page' t
  rintro rfl
  exact h hmem

/-! ## Steps that hand out page ids -/

/-- The working catalog hands out page ids and takes none back. -/
structure IdsGrow (s t : Transaction FileId × Disk) : Prop where
  manager : t.1.manager = s.1.manager
  ids : s.1.workingCatalog.HandsOut t.1.workingCatalog

instance : IsPreorder (Transaction FileId × Disk) IdsGrow where
  refl s := ⟨rfl, refl_of Catalog.HandsOut s.1.workingCatalog⟩
  trans _ _ _ h h' := ⟨h'.manager.trans h.manager, trans_of Catalog.HandsOut h.ids h'.ids⟩

theorem Spares.grows (h : Spares s t) : IdsGrow s t := by
  refine ⟨h.manager, ?_⟩
  rw [h.catalog]
  exact refl_of Catalog.HandsOut _

theorem onCatalog_grows {m : Db Catalog α} (h : Exec.Preserves Catalog.HandsOut m) :
    Exec.Preserves IdsGrow (onCatalog m : Db (Transaction FileId × Disk) α) :=
  fun s => ⟨rfl, h s.1.workingCatalog⟩

theorem stage_grows (pageId : PageId) (page : Page) :
    Exec.Preserves IdsGrow (stage pageId page : Db (Transaction FileId × Disk) _) :=
  fun s => ⟨rfl, refl_of Catalog.HandsOut s.1.workingCatalog⟩

theorem accessesPreserve_grows :
    AccessesPreserve (S := Transaction FileId × Disk) IdsGrow where
  load id s := (loadPage_spares id s).grows
  store {id node page} _ := by
    intro s
    exact Exec.rel_check fun header _ => stage_grows _ _ s
  allocate := onCatalog_grows Catalog.allocatePageId_handsOut

theorem markCatalogDirty_grows :
    Exec.Preserves IdsGrow (markCatalogDirty : Db (Transaction FileId × Disk) _) := by
  intro s
  refine Exec.rel_bind (refl_of IdsGrow s) ?_
  rintro _ _ ⟨⟩
  exact Exec.rel_check fun page _ => stage_grows _ _ s

/-- Unless page ids are handed out, the working catalog and an up-to-date catalog page stay. -/
structure Frames (s t : Transaction FileId × Disk) : Prop where
  grows : IdsGrow s t
  frame : s.1.manager.store.pageFile.file = .data →
    t.1.workingCatalog.nextPageId = s.1.workingCatalog.nextPageId → SeesCatalog s →
      t.1.workingCatalog = s.1.workingCatalog ∧ SeesCatalog t

theorem Spares.frames (h : Spares s t) : Frames s t :=
  ⟨h.grows, fun _ _ hs => ⟨h.catalog, h.sees hs⟩⟩

instance : IsPreorder (Transaction FileId × Disk) Frames where
  refl s := (refl_of Spares s).frames
  trans s t u h h' := by
    refine ⟨trans_of IdsGrow h.grows h'.grows, ?_⟩
    intro hfile hids hs
    have hle : s.1.workingCatalog.nextPageId.toNat ≤ t.1.workingCatalog.nextPageId.toNat := h.grows.ids
    have hle' : t.1.workingCatalog.nextPageId.toNat ≤ u.1.workingCatalog.nextPageId.toNat := h'.grows.ids
    rw [hids] at hle'
    have hsame : t.1.workingCatalog.nextPageId = s.1.workingCatalog.nextPageId :=
      UInt64.toNat_inj.1 (Nat.le_antisymm hle' hle)
    obtain ⟨hcatalog, ht⟩ := h.frame hfile hsame hs
    obtain ⟨hcatalog', hu⟩ := h'.frame (by rwa [h.grows.manager]) (hids.trans hsame.symm) ht
    exact ⟨hcatalog'.trans hcatalog, hu⟩

/-- After a page id has been handed out, everything else is allowed that takes no id back. -/
theorem allocate_frames {k : PageId → Db (Transaction FileId × Disk) β}
    (hk : ∀ id, Exec.Preserves IdsGrow (k id)) :
    Exec.Preserves Frames (onCatalog Catalog.allocatePageId >>= k) := by
  intro s
  rcases hrun : Catalog.allocatePageId s.1.workingCatalog with ⟨stop | id, c⟩
  · have hfull : c = s.1.workingCatalog := by
      by_cases hroom : s.1.workingCatalog.nextPageId.toNat + 1 < 2 ^ 64
      · rw [Catalog.allocatePageId_of_room hroom] at hrun
        cases hrun
      · rw [Catalog.allocatePageId_of_full hroom] at hrun
        cases hrun
        rfl
    have hstop : (onCatalog Catalog.allocatePageId : Db (Transaction FileId × Disk) _) s =
        (.error stop, s) := by
      rw [onCatalog, Exec.zoom_apply, hrun, hfull]
    rw [Exec.bind_of_error hstop]
    exact refl_of Frames s
  · have hnext := (Catalog.allocatePageId_eq_ok hrun).2.2
    have hallocate : (onCatalog Catalog.allocatePageId : Db (Transaction FileId × Disk) _) s =
        (.ok id, ({ s.1 with workingCatalog := c }, s.2)) := by
      rw [onCatalog, Exec.zoom_apply, hrun]
    rw [Exec.bind_of_ok hallocate]
    have hgrows := hk id ({ s.1 with workingCatalog := c }, s.2)
    have hle : c.nextPageId.toNat ≤ _ := hgrows.ids
    refine ⟨⟨hgrows.manager, (Nat.le_succ _).trans (hnext.ge.trans hle)⟩, ?_⟩
    intro _ hids
    rw [hids] at hle
    omega

/-- Nodes are not loaded from an up-to-date catalog page. -/
theorem loadNode_ne {node : BTreeNode} (h : loadNode pageId s = (.ok node, t))
    (hfile : t.1.manager.store.pageFile.file = .data) (ht : SeesCatalog t) :
    pageId ≠ catalogPageId := by
  rintro rfl
  obtain ⟨page', u, hload, hnode⟩ := Exec.bind_eq_ok.1 h
  obtain ⟨hdecoded, rfl⟩ := Exec.liftM_eq_ok.1 hnode
  have htx : u.1 = s.1 := loadPage_eq_tx hload
  have hdata : u.2.data = s.2.data := (loadPage_staging catalogPageId).rel hload |>.disk.files.data
  rw [htx] at hfile
  obtain ⟨page, hpage, hc⟩ := ht
  rw [visible_congr (by rw [htx]) hdata] at hpage
  have hsame : page' = page := by
    have hload' : loadPage catalogPageId s = (.ok page', u) := hload
    rw [loadPage_apply] at hload'
    cases hget : s.1.dirtyPages[catalogPageId]? with
    | some staged =>
        rw [hget] at hload'
        cases hload'
        exact Option.some.inj ((visible_of_staged hget).symm.trans hpage)
    | none =>
        rw [hget] at hload'
        rw [visible_of_not_staged hget] at hpage
        have hread : (s.1.manager.store.pageFile.readPage catalogPageId s.2).1 = .ok page' :=
          congrArg Prod.fst hload'
        have hpair : s.1.manager.store.pageFile.readPage catalogPageId s.2 =
            (.ok page', (s.1.manager.store.pageFile.readPage catalogPageId s.2).2) :=
          Prod.ext hread rfl
        have hstored : s.2.storedPage catalogPageId = some page' :=
          storedPage_eq_some.2 ⟨holds_of_readPage hfile hpair, readPage_eq_ok hpair⟩
        exact Option.some.inj (hstored.symm.trans hpage)
  obtain ⟨header, hheader, hc⟩ := except_bind_eq_ok.1 (hc .least)
  obtain ⟨⟨⟩, hcatalog, -⟩ := except_bind_eq_ok.1 hc
  rw [hsame] at hdecoded
  obtain ⟨header', hheader', hdecoded⟩ := except_bind_eq_ok.1 hdecoded
  obtain ⟨⟨⟩, hindex, -⟩ := except_bind_eq_ok.1 hdecoded
  rw [hheader] at hheader'
  cases hheader'
  have hcatalog' : header.pageType = .catalog := not_not.1 (failIf_eq_ok.1 hcatalog)
  have hindex' : header.pageType = .index := not_not.1 (failIf_eq_ok.1 hindex)
  rw [hcatalog'] at hindex'
  cases hindex'

/-- A step that works on a node that has been loaded. -/
theorem loadNode_frames {k : BTreeNode → Db (Transaction FileId × Disk) β}
    (hk : ∀ node, Exec.Preserves IdsGrow (k node))
    (hframes : pageId ≠ catalogPageId → ∀ node, Exec.Preserves Frames (k node)) :
    Exec.Preserves Frames (loadNode pageId >>= k) := by
  have hloaded : Exec.Preserves Spares (loadNode pageId : Db (Transaction FileId × Disk) _) :=
    Exec.Preserves.bind (loadPage_spares pageId) fun _ => Exec.Preserves.liftM _
  intro s
  refine Exec.rel_bind (hloaded s).frames ?_
  intro node t hload
  by_cases hne : pageId = catalogPageId
  · refine ⟨hk node t, ?_⟩
    intro hfile _ ht
    exact absurd hne (loadNode_ne hload hfile ht)
  · exact hframes hne node t

/-! ## Index trees -/

theorem storeNode_grows (pageId : PageId) (node : BTreeNode) :
    Exec.Preserves IdsGrow (storeNode pageId node : Db (Transaction FileId × Disk) _) :=
  storeNode_preserves accessesPreserve_grows pageId node

theorem storeNode_frames (h : pageId ≠ catalogPageId) (node : BTreeNode) :
    Exec.Preserves Frames (storeNode pageId node : Db (Transaction FileId × Disk) _) :=
  fun s => (storeNode_spares h node s).frames

theorem storeLeaf_frames (h : pageId ≠ catalogPageId) (next : Option PageId)
    (entries : List IndexEntry) :
    Exec.Preserves Frames (storeLeaf pageId next entries : Db (Transaction FileId × Disk) _) := by
  unfold storeLeaf
  split
  · exact Exec.Preserves.bind (storeNode_frames h _) fun _ => Exec.Preserves.pure _
  · refine allocate_frames fun right => ?_
    refine Exec.Preserves.bind (Exec.Preserves.liftM _) fun first => ?_
    refine Exec.Preserves.bind (storeNode_grows _ _) fun _ => ?_
    exact Exec.Preserves.bind (storeNode_grows _ _) fun _ => Exec.Preserves.pure _

theorem storeInternal_frames (h : pageId ≠ catalogPageId) (keys : List IndexKey)
    (children : List PageId) :
    Exec.Preserves Frames (storeInternal pageId keys children : Db (Transaction FileId × Disk) _) := by
  unfold storeInternal
  split
  · exact Exec.Preserves.bind (storeNode_frames h _) fun _ => Exec.Preserves.pure _
  · refine Exec.Preserves.bind (Exec.Preserves.liftM _) fun separator => ?_
    refine allocate_frames fun right => ?_
    refine Exec.Preserves.bind (storeNode_grows _ _) fun _ => ?_
    exact Exec.Preserves.bind (storeNode_grows _ _) fun _ => Exec.Preserves.pure _

theorem insertRecursive_frames (fuel : Nat) (pageId : PageId) (key : IndexKey) (rowId : RowId) :
    Exec.Preserves Frames
      (insertRecursive fuel pageId key rowId : Db (Transaction FileId × Disk) _) := by
  induction fuel generalizing pageId with
  | zero => exact Exec.Preserves.fail _
  | succ fuel ih =>
      refine loadNode_frames ?_ fun hne => ?_
      · exact loaded_preserves (storeLeaf_preserves accessesPreserve_grows _)
          (storeInternal_preserves accessesPreserve_grows _)
          fun child => insertRecursive_preserves accessesPreserve_grows fuel child key rowId
      · exact loaded_preserves (storeLeaf_frames hne) (storeInternal_frames hne) ih

theorem insert_frames (fuel : Nat) (root : PageId) (key : IndexKey) (rowId : RowId) :
    Exec.Preserves Frames (insert fuel root key rowId : Db (Transaction FileId × Disk) _) := by
  refine Exec.Preserves.bind (insertRecursive_frames fuel root key rowId) fun split => ?_
  cases split with
  | none => exact Exec.Preserves.pure _
  | some split =>
      refine allocate_frames fun newRoot => ?_
      exact Exec.Preserves.bind (storeNode_grows _ _) fun _ => Exec.Preserves.pure _

/-! ## Operations -/

/-- What an operation does to the catalog page: it saves the working catalog if it always
does so, and if it has changed it; and it fails with the page out of date only if it has
changed the catalog or the page was out of date before. -/
structure Tracks (saves : Bool) (s : Transaction FileId × Disk)
    (result : DbResult α × (Transaction FileId × Disk)) : Prop where
  done : ∀ a t, result = (.ok a, t) →
    saves = true ∨ t.1.workingCatalog ≠ s.1.workingCatalog ∨ SeesCatalog s → SeesCatalog t
  failed : ∀ stop t, result = (.error stop, t) →
    t.1.workingCatalog = s.1.workingCatalog → SeesCatalog s → SeesCatalog t

theorem markCatalogDirty_sees {u : Unit} (h : markCatalogDirty s = (.ok u, t))
    (hheaps : t.1.workingCatalog.HeapsNonempty) : SeesCatalog t := by
  obtain ⟨tx, s', hcurrent, h⟩ := Exec.bind_eq_ok.1 h
  cases hcurrent
  obtain ⟨page, s', hpage, h⟩ := Exec.bind_eq_ok.1 h
  obtain ⟨htoPage, rfl⟩ := Exec.liftM_eq_ok.1 hpage
  cases h
  refine ⟨page, ?_, fun memory => Catalog.fromPage_of_toPage memory htoPage hheaps⟩
  exact (visible_stage s.1 s.2 catalogPageId page catalogPageId).trans (if_pos rfl)

theorem markCatalogDirty_failed {stop : Stop} (h : markCatalogDirty s = (.error stop, t)) :
    t = s := by
  rcases Exec.bind_eq_error.1 h with h | ⟨tx, s', hcurrent, h⟩
  · cases h
  · cases hcurrent
    rcases Exec.bind_eq_error.1 h with h | ⟨page, s', hpage, h⟩
    · exact (Exec.liftM_eq_error.1 h).2.symm
    · cases h

theorem Frames.failed (h : Frames s t) (hfile : s.1.manager.store.pageFile.file = .data)
    (hcatalog : t.1.workingCatalog = s.1.workingCatalog) (hs : SeesCatalog s) : SeesCatalog t :=
  (h.frame hfile (by rw [hcatalog]) hs).2

/-- A call of the working catalog that fails leaves the staged pages alone. -/
theorem SeesCatalog.onCatalog {c : Catalog} (hs : SeesCatalog s)
    (ht : t = ({ s.1 with workingCatalog := c }, s.2))
    (hcatalog : t.1.workingCatalog = s.1.workingCatalog) : SeesCatalog t := by
  have hspares : Spares s t := by
    refine Spares.of_visible (by rw [ht]) hcatalog ?_
    rw [ht]
    exact visible_congr rfl rfl
  exact hspares.sees hs

/-- An operation that takes a page id for something new, prepares its page and saves the
catalog. -/
theorem create_tracks {γ : Type} {m : Db Catalog γ} {prepare : γ → Db (Transaction FileId × Disk) Unit}
    {created : γ → α}
    (hm : ∀ {c a c'}, m c = (.ok a, c') → c.nextPageId.toNat < c'.nextPageId.toNat)
    (hprepare : ∀ a, Exec.Preserves IdsGrow (prepare a))
    (hheaps : ((do
      let a ← Transaction.onCatalog m
      prepare a
      markCatalogDirty
      return created a : Db (Transaction FileId × Disk) α) s).2.1.workingCatalog.HeapsNonempty) :
    Tracks true s ((do
      let a ← Transaction.onCatalog m
      prepare a
      markCatalogDirty
      return created a : Db (Transaction FileId × Disk) α) s) := by
  constructor
  · intro a t h _
    rw [h] at hheaps
    obtain ⟨c, u, -, h⟩ := Exec.bind_eq_ok.1 h
    obtain ⟨⟨⟩, v, -, h⟩ := Exec.bind_eq_ok.1 h
    obtain ⟨⟨⟩, w, hdirty, h⟩ := Exec.bind_eq_ok.1 h
    cases h
    exact markCatalogDirty_sees hdirty hheaps
  · intro stop t h hcatalog hs
    rcases Exec.bind_eq_error.1 h with h | ⟨a, u, hrun, h⟩
    · exact hs.onCatalog (congrArg Prod.snd h).symm hcatalog
    · obtain ⟨c, hc, rfl⟩ := onCatalog_eq_ok.1 hrun
      have hlt := hm hc
      have hgrows : Exec.Preserves IdsGrow (do
          prepare a
          markCatalogDirty
          return created a : Db (Transaction FileId × Disk) α) :=
        Exec.Preserves.bind (hprepare a) fun _ =>
          Exec.Preserves.bind markCatalogDirty_grows fun _ => Exec.Preserves.pure _
      have hle : c.nextPageId.toNat ≤ t.1.workingCatalog.nextPageId.toNat := (hgrows.rel h).ids
      rw [hcatalog] at hle
      omega

theorem createTable_tracks (hactive : s.1.state = .active)
    (hheaps : s.1.workingCatalog.HeapsNonempty) (name : String) (columns : List ColumnDef) :
    Tracks true s (createTable name columns s) := by
  have hkept := (createTable_staging name columns s).heaps hheaps
  rw [createTable, Exec.bind_of_ok (ensureActive_of_active hactive)] at hkept ⊢
  refine create_tracks (fun hrun => ?_) (fun _ => stage_grows _ _) hkept
  have hnext := ((Catalog.createTableMetadata_ensures name columns).ok hrun).nextPageId
  omega

theorem createIndex_tracks (hactive : s.1.state = .active)
    (hheaps : s.1.workingCatalog.HeapsNonempty) (name : String) (tableId : RelationId)
    (columnName : String) : Tracks true s (createIndex name tableId columnName s) := by
  have hkept := (createIndex_staging name tableId columnName s).heaps hheaps
  rw [createIndex, Exec.bind_of_ok (ensureActive_of_active hactive)] at hkept ⊢
  refine create_tracks (fun hrun => ?_) (fun _ => storeNode_grows _ _) hkept
  have hnext := ((Catalog.createIndexMetadata_ensures name tableId columnName).ok hrun).1.nextPageId
  omega

theorem insertRow_frames (hactive : s.1.state = .active) (hwf : s.1.workingCatalog.WellFormed)
    (relationId : RelationId) (bytes : List UInt8) : Frames s (insertRow relationId bytes s).2 := by
  rw [insertRow, Exec.bind_of_ok (ensureActive_of_active hactive), Exec.bind_of_ok (current_apply s)]
  refine Exec.rel_check fun _ _ => Exec.rel_check fun pageIds hpages => ?_
  refine Exec.rel_bind (insertIntoPages_spares bytes (heapPages_free hwf hpages) s).frames ?_
  intro placed u hplaced
  cases placed with
  | some rowId => exact refl_of Frames u
  | none =>
      refine allocate_frames (fun pageId => ?_) u
      refine Exec.Preserves.bind (Exec.Preserves.liftM _) fun ⟨slotId, page⟩ => ?_
      refine Exec.Preserves.bind
        (onCatalog_grows (Catalog.appendHeapPage_handsOut relationId pageId)) fun _ => ?_
      refine Exec.Preserves.bind (stage_grows _ _) fun _ => ?_
      exact Exec.Preserves.bind markCatalogDirty_grows fun _ => Exec.Preserves.pure _

theorem insertRow_tracks (hactive : s.1.state = .active) (hwf : s.1.workingCatalog.WellFormed)
    (hfile : s.1.manager.store.pageFile.file = .data) (relationId : RelationId) (bytes : List UInt8) :
    Tracks false s (insertRow relationId bytes s) := by
  have hframes := insertRow_frames hactive hwf relationId bytes
  have hkept := (insertRow_staging relationId bytes s).heaps hwf.heapsNonempty
  constructor
  · intro rowId t h hwhen
    rw [h] at hkept
    rw [insertRow, Exec.bind_of_ok (ensureActive_of_active hactive),
      Exec.bind_of_ok (current_apply s)] at h
    obtain ⟨⟨⟩, s', hensured, h⟩ := Exec.bind_eq_ok.1 h
    obtain ⟨-, rfl⟩ := Exec.liftM_eq_ok.1 hensured
    obtain ⟨pageIds, s', hlisted, h⟩ := Exec.bind_eq_ok.1 h
    obtain ⟨hpages, rfl⟩ := Exec.liftM_eq_ok.1 hlisted
    obtain ⟨placed, u, hplaced, h⟩ := Exec.bind_eq_ok.1 h
    have hspares := (insertIntoPages_spares bytes (heapPages_free hwf hpages)).rel hplaced
    cases placed with
    | some rowId =>
        cases h
        rcases hwhen with hsaves | hchanged | hs
        · cases hsaves
        · exact absurd hspares.catalog hchanged
        · exact hspares.sees hs
    | none =>
        obtain ⟨pageId, v, -, h⟩ := Exec.bind_eq_ok.1 h
        obtain ⟨⟨slotId, page⟩, v', -, h⟩ := Exec.bind_eq_ok.1 h
        obtain ⟨⟨⟩, w, -, h⟩ := Exec.bind_eq_ok.1 h
        obtain ⟨⟨⟩, w', -, h⟩ := Exec.bind_eq_ok.1 h
        obtain ⟨⟨⟩, x, hdirty, h⟩ := Exec.bind_eq_ok.1 h
        cases h
        exact markCatalogDirty_sees hdirty hkept
  · intro stop t h
    rw [h] at hframes
    exact hframes.failed hfile

theorem insertIndexEntry_tracks (hactive : s.1.state = .active)
    (hheaps : s.1.workingCatalog.HeapsNonempty) (hfile : s.1.manager.store.pageFile.file = .data)
    (fuel : Nat) (indexRelationId : RelationId) (key : IndexKey) (rowId : RowId) :
    Tracks true s (insertIndexEntry fuel indexRelationId key rowId s) := by
  have hkept := (insertIndexEntry_staging fuel indexRelationId key rowId s).heaps hheaps
  constructor
  · rintro ⟨⟩ t h -
    rw [h] at hkept
    rw [insertIndexEntry, Exec.bind_of_ok (ensureActive_of_active hactive),
      Exec.bind_of_ok (current_apply s)] at h
    obtain ⟨root, s', -, h⟩ := Exec.bind_eq_ok.1 h
    obtain ⟨newRoot, u, -, h⟩ := Exec.bind_eq_ok.1 h
    split at h
    · obtain ⟨⟨⟩, v, -, hdirty⟩ := Exec.bind_eq_ok.1 h
      exact markCatalogDirty_sees hdirty hkept
    · exact markCatalogDirty_sees h hkept
  · intro stop t h hcatalog hs
    rw [insertIndexEntry, Exec.bind_of_ok (ensureActive_of_active hactive),
      Exec.bind_of_ok (current_apply s)] at h
    rcases Exec.bind_eq_error.1 h with h | ⟨root, s', hroot, h⟩
    · obtain ⟨-, rfl⟩ := Exec.liftM_eq_error.1 h
      exact hs
    obtain ⟨-, rfl⟩ := Exec.liftM_eq_ok.1 hroot
    rcases Exec.bind_eq_error.1 h with h | ⟨newRoot, u, hinsert, h⟩
    · exact ((insert_frames fuel root key rowId).rel h).failed hfile hcatalog hs
    have hframes := (insert_frames fuel root key rowId).rel hinsert
    have hset : Exec.Preserves IdsGrow (Transaction.onCatalog
        (Catalog.setIndexRootPage indexRelationId newRoot) : Db (Transaction FileId × Disk) _) :=
      onCatalog_grows (Catalog.setIndexRootPage_handsOut indexRelationId newRoot)
    -- what comes after the insertion leaves the staged pages alone when it fails
    obtain ⟨c, ht⟩ : ∃ c, t = ({ u.1 with workingCatalog := c }, u.2) := by
      split at h
      · rcases Exec.bind_eq_error.1 h with h | ⟨⟨⟩, v, hroot, h⟩
        · exact ⟨_, (congrArg Prod.snd h).symm⟩
        · obtain ⟨c, -, rfl⟩ := onCatalog_eq_ok.1 hroot
          exact ⟨c, markCatalogDirty_failed h⟩
      · exact ⟨u.1.workingCatalog, markCatalogDirty_failed h⟩
    have hgrows : IdsGrow u t := by
      split at h
      · exact (Exec.Preserves.bind hset fun _ => markCatalogDirty_grows).rel h
      · exact markCatalogDirty_grows.rel h
    have hle : s.1.workingCatalog.nextPageId.toNat ≤ u.1.workingCatalog.nextPageId.toNat :=
      hframes.grows.ids
    have hle' : u.1.workingCatalog.nextPageId.toNat ≤ t.1.workingCatalog.nextPageId.toNat := hgrows.ids
    rw [hcatalog] at hle'
    obtain ⟨hsame, hu⟩ := hframes.frame hfile (UInt64.toNat_inj.1 (Nat.le_antisymm hle' hle)) hs
    exact hu.onCatalog ht (hcatalog.trans hsame.symm)

theorem registerExtension_tracks (hactive : s.1.state = .active)
    (hheaps : s.1.workingCatalog.HeapsNonempty) (name : String) (abiVersion : UInt32) (kind : String) :
    Tracks false s (registerExtension name abiVersion kind s) := by
  have hkept := (registerExtension_staging name abiVersion kind s).heaps hheaps
  constructor
  · intro registered t h hwhen
    rw [h] at hkept
    rw [registerExtension, Exec.bind_of_ok (ensureActive_of_active hactive)] at h
    obtain ⟨inserted, u, hrun, h⟩ := Exec.bind_eq_ok.1 h
    obtain ⟨c, hc, rfl⟩ := onCatalog_eq_ok.1 hrun
    cases inserted with
    | true =>
        obtain ⟨⟨⟩, v, hdirty, h⟩ := Exec.bind_eq_ok.1 h
        cases h
        exact markCatalogDirty_sees hdirty hkept
    | false =>
        cases h
        obtain rfl : c = s.1.workingCatalog :=
          ((Catalog.registerExtensionMetadata_ensures name abiVersion kind).ok hc).1 rfl
        rcases hwhen with hsaves | hchanged | hs
        · cases hsaves
        · exact absurd rfl hchanged
        · exact hs
  · intro stop t h hcatalog hs
    rw [registerExtension, Exec.bind_of_ok (ensureActive_of_active hactive)] at h
    rcases Exec.bind_eq_error.1 h with h | ⟨inserted, u, hrun, h⟩
    · exact hs.onCatalog (congrArg Prod.snd h).symm hcatalog
    obtain ⟨c, -, rfl⟩ := onCatalog_eq_ok.1 hrun
    cases inserted with
    | true =>
        rcases Exec.bind_eq_error.1 h with h | ⟨⟨⟩, v, -, h⟩
        · exact hs.onCatalog (markCatalogDirty_failed h) hcatalog
        · cases h
    | false => cases h

end Transaction

end Rdbms
