import Rdbms.Index.Bounded

/-!
# Short keys always fit

Nodes are split when they have too many entries or separators, however long these are,
while a page is full when it has too many bytes. With integers and texts of at most 996
bytes as keys the two never disagree: four entries with such keys take at most 4054 bytes
and four separators with five children at most 4047, and a page has room for 4056.
-/

namespace Rdbms

open Library BPlusTree Index

/-- An integer, or a text of at most 996 bytes. -/
def IndexKey.Short : IndexKey → Prop
  | .integer _ => True
  | .text value => (utf8 value).length ≤ 996

/-- Encoding the parts of a list when each of them can be encoded in at most `most` bytes. -/
theorem mapM_encode {α : Type} {encode : α → DbResult (List UInt8)} {xs : List α} {most : Nat}
    (h : ∀ x ∈ xs, ∃ bs, encode x = .ok bs ∧ bs.length ≤ most) :
    ∃ parts, xs.mapM encode = .ok parts ∧ parts.flatten.length ≤ xs.length * most := by
  obtain ⟨parts, hparts⟩ := except_mapM_isOk.2 fun x hx =>
    (h x hx).imp fun _ hbs => hbs.1
  refine ⟨parts, hparts, length_flatten_mapM_le hparts fun x hx part hpart => ?_⟩
  obtain ⟨bs, hbs, hlen⟩ := h x hx
  rw [hpart] at hbs
  cases hbs
  exact hlen

theorem encodeKey_short {key : IndexKey} (h : key.Short) :
    ∃ bs, encodeKey key = .ok bs ∧ bs.length ≤ 999 := by
  cases key with
  | integer value => exact ⟨_, rfl, by simp⟩
  | text value =>
      have hlen : (utf8 value).length ≤ 996 := h
      have hfits : writeU16Len (utf8 value).length "index text key length" =
          .ok (le16 (UInt16.ofNat (utf8 value).length)) :=
        writeU16Len_eq_ok.2 ⟨by omega, rfl⟩
      refine ⟨keyText :: (le16 (UInt16.ofNat (utf8 value).length) ++ utf8 value), ?_, ?_⟩
      · rw [encodeKey, hfits]
        rfl
      · rw [List.length_cons, List.length_append, length_le16]
        omega

theorem encodeEntry_short {entry : IndexEntry} (h : entry.key.Short) :
    ∃ bs, encodeEntry entry = .ok bs ∧ bs.length ≤ 1009 := by
  obtain ⟨bs, hbs, hlen⟩ := encodeKey_short h
  refine ⟨bs ++ (le64 entry.rowId.pageId.val ++ le16 entry.rowId.slotId.val), ?_, ?_⟩
  · rw [encodeEntry, hbs]
    rfl
  · rw [List.length_append, List.length_append, length_le64, length_le16]
    omega

/-- A node with short keys that is not too long has an encoding that a page has room for. -/
theorem encodeNode_short {node : BTreeNode} (h : Fitting IndexKey.Short node) :
    ∃ bs, encodeNode node = .ok bs ∧ bs.length ≤ 4056 := by
  obtain ⟨hshape, hsize, hkeys⟩ := h
  cases node with
  | leaf next entries =>
      simp only [NodeSize, maxKeys] at hsize
      obtain ⟨parts, hparts, hlen⟩ := mapM_encode fun e he => encodeEntry_short (hkeys e he)
      have hcount : writeU16Len entries.length "leaf entry count" = .ok _ :=
        writeU16Len_eq_ok.2 ⟨by omega, rfl⟩
      refine ⟨nodeMagic ++ (le16 nodeVersion ++ ([nodeLeaf] ++ (encodeNextLeaf next ++
        (le16 (UInt16.ofNat entries.length) ++ parts.flatten)))), ?_, ?_⟩
      · rw [encodeNode, hcount, hparts]
        rfl
      · simp only [List.length_append, length_le16, length_encodeNextLeaf, nodeMagic,
          List.length_cons, List.length_nil]
        omega
  | internal keys children =>
      simp only [NodeSize, maxKeys] at hsize
      have hchildren : children.length = keys.length + 1 := hshape
      obtain ⟨parts, hparts, hlen⟩ := mapM_encode fun k hk => encodeKey_short (hkeys k hk)
      have hkeyCount : writeU16Len keys.length "internal key count" = .ok _ :=
        writeU16Len_eq_ok.2 ⟨by omega, rfl⟩
      have hchildCount : writeU16Len children.length "internal child count" = .ok _ :=
        writeU16Len_eq_ok.2 ⟨by omega, rfl⟩
      refine ⟨nodeMagic ++ (le16 nodeVersion ++ ([nodeInternal] ++
        (le16 (UInt16.ofNat keys.length) ++ (parts.flatten ++
          (le16 (UInt16.ofNat children.length) ++
            (children.map fun child => le64 child.val).flatten))))), ?_, ?_⟩
      · rw [encodeNode, validateInternalShape_of_length hchildren, hkeyCount, hparts, hchildCount]
        rfl
      · simp only [List.length_append, length_le16, length_children, nodeMagic,
          List.length_cons, List.length_nil]
        omega

section Run

variable {S : Type} [BPlusTreePageStore S]

theorem LawfulPageStore.failsIn_short (model : LawfulPageStore S) :
    model.FailsIn model.StoreFails IndexKey.Short where
  store := by
    intro s page header hs hheader
    rcases hrun : BPlusTreePageStore.storePage page s with ⟨stop | ⟨⟩, t⟩
    · exact Exec.Ensures.of_error hrun (Or.inl ⟨s, page, header, t, hs, hheader, hrun⟩)
    · exact Exec.Ensures.of_ok hrun trivial
  allocate := by
    intro s hs
    rcases hrun : BPlusTreePageStore.allocatePage s with ⟨stop | id, t⟩
    · exact Exec.Ensures.of_error hrun (Or.inr ⟨s, t, hs, hrun⟩)
    · exact Exec.Ensures.of_ok hrun trivial
  node := by
    intro id node stop hnode hstop
    obtain ⟨bs, hbs, hlen⟩ := encodeNode_short hnode
    obtain ⟨page, hpage⟩ := nodeToPage_of_fits id hbs hlen
    rw [hpage] at hstop
    cases hstop

/-- A tree all of whose nodes have short keys. -/
structure ShortTree (model : LawfulPageStore S) (s : S) (root : PageId) (height : Nat) : Prop where
  tree : ∃ leaves ids, TreeAt model s (min height 1) height ⊥ ⊤ root leaves ids ∧ ids.Nodup ∧
    (∀ i ∈ ids, model.used s i) ∧ Labelled model IndexKey.Short s ids ∧ Chained leaves none

variable {model : LawfulPageStore S}

theorem insertAll_short {fuel : Nat} : ∀ {pairs : List IndexEntry} {s : S} {root : PageId}
    {height : Nat}, ShortTree model s root height → model.Good s →
    (∀ pair ∈ pairs, pair.key.Short) → height + pairs.length ≤ fuel →
    Exec.Ensures (insertAll fuel root pairs) s model.StoreFails fun newRoot t =>
      ∃ height', ShortTree model t newRoot height' := by
  intro pairs
  induction pairs with
  | nil => exact fun h _ _ _ => Exec.Ensures.pure ⟨_, h⟩
  | cons pair pairs ih =>
      intro s root height h hs hkeys hfuel
      rw [List.forall_mem_cons] at hkeys
      rw [List.length_cons] at hfuel
      obtain ⟨leaves, ids, htree, hids, hused, hall, hchain⟩ := h.tree
      have hfails := insert_ensures_height model.failsIn_short htree hall hids hused hs
        (by omega : height < fuel) hkeys.1 pair.rowId
      rcases hrun : insert fuel root pair.key pair.rowId s with ⟨stop | root', t⟩
      · exact Exec.Ensures.bind (Exec.Ensures.of_error hrun (hfails.error hrun))
      · obtain ⟨height', leaves', ids', htree', hroot, hreplaced, hgrown, hlabels⟩ :=
          insert_height htree hids hused hs hrun
        refine Exec.Ensures.bind (Exec.Ensures.of_ok hrun (@ih t root' height' ?_
          hreplaced.keeps.good hkeys.2 (by omega)))
        exact ⟨leaves', ids', htree', hreplaced.nodup, hreplaced.used, hlabels _ hkeys.1 hall,
          hgrown.chained none hchain⟩

theorem fitting_of_labelled {Q : IndexKey → Prop} {s : S} {least height : Nat}
    {lo hi : Bound IndexKey} {id : PageId} {leaves : List (Leaf IndexEntry PageId)}
    {ids : List PageId} (h : TreeAt model s least height lo hi id leaves ids)
    (hall : Labelled model Q s ids) :
    ∀ i ∈ ids, ∃ node, model.view s i = some node ∧ Fitting Q node := by
  intro i hi
  rcases Subtree.size h i hi with ⟨next, entries, hview, hmost⟩ |
    ⟨keys, children, hview, hlen, hmost⟩
  · exact ⟨_, hview, nodeShape_leaf next entries, hmost, hall.node hi hview⟩
  · exact ⟨_, hview, nodeShape_internal hlen, hmost, hall.node hi hview⟩

/-- The nodes of a tree with short keys. -/
theorem ShortTree.node {s : S} {root : PageId} {height : Nat} (h : ShortTree model s root height)
    {i : PageId} (hi : Linked (model.view s) root i) :
    ∃ node bs, model.view s i = some node ∧ encodeNode node = .ok bs ∧ bs.length ≤ 4056 := by
  obtain ⟨leaves, ids, htree, -, -, hall, hchain⟩ := h.tree
  obtain ⟨node, hview, hnode⟩ := fitting_of_labelled htree hall i
    ((Subtree.linked_iff htree hchain).1 hi)
  obtain ⟨bs, hbs, hlen⟩ := encodeNode_short hnode
  exact ⟨node, bs, hview, hbs, hlen⟩

/-- Inserts of short keys, starting from an empty root, fail only as the store itself does,
and all nodes they leave behind have encodings that a page has room for. -/
theorem short_keys_never_overflow (model : LawfulPageStore S) {fuel : Nat} {s t : S}
    {root : PageId} {pairs : List IndexEntry} (hs : model.Good s) (hroot : model.Storable s root)
    (hinit : initializeRoot root s = (.ok (), t)) (hkeys : ∀ pair ∈ pairs, pair.key.Short)
    (hfuel : pairs.length ≤ fuel) :
    (∀ stop u, insertAll fuel root pairs t = (.error stop, u) → model.StoreFails stop) ∧
      ∀ newRoot u, insertAll fuel root pairs t = (.ok newRoot, u) →
        ∀ i, Linked (model.view u) newRoot i →
          ∃ node bs, model.view u i = some node ∧ encodeNode node = .ok bs ∧
            bs.length ≤ 4056 ∧ ∃ page, nodeToPage i node = .ok page := by
  obtain ⟨hkeeps, hview, hused⟩ := LawfulPageStore.storeNode_eq_ok hs hroot hinit
  have hshort : ShortTree model t root 0 := by
    refine ⟨[⟨root, none, []⟩], [root], ?_, List.nodup_singleton root, ?_, ?_, rfl, trivial⟩
    · exact ⟨none, [], hview, List.Pairwise.nil, fun e he => absurd he List.not_mem_nil,
        Nat.le_refl _, Nat.zero_le _, rfl, rfl⟩
    · exact List.forall_mem_singleton.2 hused
    · exact List.forall_mem_singleton.2 ⟨_, hview, fun e he => absurd he List.not_mem_nil⟩
  have hrun := insertAll_short hshort hkeeps.good hkeys (by omega : 0 + pairs.length ≤ fuel)
  refine ⟨fun stop u h => hrun.error h, fun newRoot u h i hi => ?_⟩
  obtain ⟨height, hleft⟩ := hrun.ok h
  obtain ⟨node, bs, hnode, hbs, hlen⟩ := hleft.node hi
  exact ⟨node, bs, hnode, hbs, hlen, nodeToPage_of_fits i hbs hlen⟩

/-- Integers are short keys. -/
theorem five_short_keys :
    ∃ t u, initializeRoot ⟨1⟩ MemoryStore.empty = (.ok (), t) ∧
      insertAll 5 ⟨1⟩ fivePairs t = (.ok ⟨3⟩, u) ∧
      ∀ i, Linked (MemoryStore.lawful.view u) ⟨3⟩ i →
        ∃ node bs, MemoryStore.lawful.view u i = some node ∧ encodeNode node = .ok bs ∧
          bs.length ≤ 4056 ∧ ∃ page, nodeToPage i node = .ok page := by
  obtain ⟨t, u, hinit, hrun⟩ := insert_fivePairs 4
  have hkeys : ∀ pair ∈ fivePairs, pair.key.Short := by
    simp [fivePairs, fourPairs, IndexKey.Short]
  exact ⟨t, u, hinit, hrun, (short_keys_never_overflow MemoryStore.lawful MemoryStore.empty_good
    MemoryStore.empty_storable hinit hkeys (Nat.le_refl 5)).2 ⟨3⟩ u hrun⟩

end Run

end Rdbms
