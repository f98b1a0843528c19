import Rdbms.Index.Insert

/-!
# Looking up a key

A lookup descends to the leaf before which all keys are smaller and follows the
chain of leaves until a larger key shows up. Over a tree it ends, and it gives the
rows of exactly the entries with the wanted key.
-/

namespace Rdbms

open Library BPlusTree

/-! ## One leaf -/

/-- The rows of the entries with the given key. -/
def rowsWith (key : IndexKey) (entries : List IndexEntry) : List RowId :=
  (entries.filter fun entry => entry.key = key).map IndexEntry.rowId

theorem rowsWith_append (key : IndexKey) (xs ys : List IndexEntry) :
    rowsWith key (xs ++ ys) = rowsWith key xs ++ rowsWith key ys := by
  simp [rowsWith]

theorem rowsWith_eq_nil {key : IndexKey} {entries : List IndexEntry}
    (h : ∀ e ∈ entries, e.key ≠ key) : rowsWith key entries = [] := by
  simp only [rowsWith, List.map_eq_nil_iff, List.filter_eq_nil_iff, decide_eq_true_eq]
  exact h

theorem rowsWith_perm (key : IndexKey) {xs ys : List IndexEntry} (h : xs.Perm ys) :
    (rowsWith key xs).Perm (rowsWith key ys) := (h.filter _).map _

/-- The scan is ended by a larger key only. -/
theorem collectRows_passed {key : IndexKey} {entries : List IndexEntry}
    (h : (collectRows key entries).2 = true) : ∃ e ∈ entries, key < e.key := by
  induction entries with
  | nil => cases h
  | cons entry entries ih =>
      rcases lt_trichotomy entry.key key with hlt | heq | hgt
      · rw [collectRows, compare_lt_iff_lt.2 hlt] at h
        obtain ⟨e, he, hlarge⟩ := ih h
        exact ⟨e, List.mem_cons_of_mem _ he, hlarge⟩
      · rw [collectRows, compare_eq_iff_eq.2 heq] at h
        obtain ⟨e, he, hlarge⟩ := ih h
        exact ⟨e, List.mem_cons_of_mem _ he, hlarge⟩
      · exact ⟨entry, List.mem_cons_self, hgt⟩

/-- In a sorted list the scan has then seen every entry with the key. -/
theorem collectRows_rows (key : IndexKey) {entries : List IndexEntry}
    (h : entries.Pairwise fun a b => a.key ≤ b.key) :
    (collectRows key entries).1 = rowsWith key entries := by
  induction entries with
  | nil => rfl
  | cons entry entries ih =>
      obtain ⟨hfirst, hrest⟩ := List.pairwise_cons.1 h
      rcases lt_trichotomy entry.key key with hlt | heq | hgt
      · rw [collectRows, compare_lt_iff_lt.2 hlt]
        simp [ih hrest, rowsWith, hlt.ne]
      · rw [collectRows, compare_eq_iff_eq.2 heq]
        simp [ih hrest, rowsWith, heq]
      · rw [collectRows, compare_gt_iff_gt.2 hgt]
        refine (rowsWith_eq_nil ?_).symm
        intro e he
        rcases List.mem_cons.1 he with rfl | he
        · exact hgt.ne'
        · exact (lt_of_lt_of_le hgt (hfirst e he)).ne'

section Scan

variable {S : Type} [BPlusTreePageStore S] {model : LawfulPageStore S} {key : IndexKey}

/-! ## The chain of leaves -/

theorem LawfulPageStore.Keeps.nothing {s t u : S} (h : model.Keeps (fun _ => False) s t)
    (h' : model.Keeps (fun _ => False) t u) (hs : model.Good s) :
    model.Keeps (fun _ => False) s u := h.trans h' (fun _ hi => hi.elim) hs

theorem scanLeaves_spec : ∀ {leaves : List (Leaf IndexEntry PageId)}
    {leaf : Leaf IndexEntry PageId} {s : S} {fuel : Nat}, model.Good s →
    (∀ l ∈ leaf :: leaves, model.view s l.id = some (.leaf l.next l.entries)) →
    Chained (leaf :: leaves) none →
    (entriesOf (leaf :: leaves)).Pairwise (fun a b => a.key ≤ b.key) → leaves.length < fuel →
    ∃ t, scanLeaves fuel leaf.id key s =
        (.ok (rowsWith key (entriesOf (leaf :: leaves))), t) ∧
      model.Keeps (fun _ => False) s t := by
  intro leaves
  induction leaves with
  | nil =>
      intro leaf s fuel hs hview hchain hsorted hfuel
      obtain ⟨fuel, rfl⟩ := Nat.exists_eq_succ_of_ne_zero (Nat.ne_of_gt (Nat.zero_lt_of_lt hfuel))
      obtain ⟨t, hload, hkeeps⟩ :=
        LawfulPageStore.loadNode_of_view hs (hview leaf List.mem_cons_self)
      have hentries : entriesOf [leaf] = leaf.entries := by simp [entriesOf]
      rw [hentries] at hsorted ⊢
      have hnext : leaf.next = none := hchain.1
      refine ⟨t, ?_, hkeeps⟩
      rw [scanLeaves, Exec.bind_of_ok hload, hnext]
      simp only [collectRows_rows key hsorted]
      cases (collectRows key leaf.entries).2 <;> rfl
  | cons next leaves ih =>
      intro leaf s fuel hs hview hchain hsorted hfuel
      obtain ⟨fuel, rfl⟩ := Nat.exists_eq_succ_of_ne_zero (Nat.ne_of_gt (Nat.zero_lt_of_lt hfuel))
      obtain ⟨u, hload, hkeeps⟩ :=
        LawfulPageStore.loadNode_of_view hs (hview leaf List.mem_cons_self)
      have hentries : entriesOf (leaf :: next :: leaves) =
          leaf.entries ++ entriesOf (next :: leaves) := by simp [entriesOf]
      rw [hentries] at hsorted ⊢
      obtain ⟨hsortedLeaf, hsortedRest, hcross⟩ := List.pairwise_append.1 hsorted
      have hrows := collectRows_rows key hsortedLeaf
      have hnext : leaf.next = some next.id := hchain.1
      rw [scanLeaves, Exec.bind_of_ok hload, hnext]
      simp only [hrows, rowsWith_append]
      cases hflag : (collectRows key leaf.entries).2 with
      | true =>
          obtain ⟨e, he, hlarge⟩ := collectRows_passed hflag
          have hnone : rowsWith key (entriesOf (next :: leaves)) = [] := by
            refine rowsWith_eq_nil ?_
            intro e' he'
            exact (lt_of_lt_of_le hlarge (hcross e he e' he')).ne'
          refine ⟨u, ?_, hkeeps⟩
          rw [hnone, List.append_nil]
          rfl
      | false =>
          obtain ⟨t, hrun, hkeeps'⟩ := @ih next u fuel hkeeps.good
            (fun l hl => hkeeps.view not_false (hview l (List.mem_cons_of_mem _ hl))) hchain.2
            hsortedRest (by simpa using hfuel)
          refine ⟨t, ?_, hkeeps.nothing hkeeps' hs⟩
          simp only [Bool.false_eq_true, if_false]
          rw [Exec.bind_of_ok hrun]
          rfl

/-! ## A larger bound changes nothing -/

theorem findLeaf_refines (fuel : Nat) (id : PageId) (key : IndexKey) :
    Exec.Refines .outOfFuel (findLeaf fuel id key : Db S PageId) (findLeaf (fuel + 1) id key) := by
  induction fuel generalizing id with
  | zero => exact Exec.refines_fail _ _
  | succ fuel ih =>
      refine Exec.Refines.bind (Exec.Refines.refl _ _) ?_
      intro node
      cases node with
      | leaf nextLeaf entries => exact Exec.Refines.refl _ _
      | internal keys children =>
          refine Exec.Refines.bind (Exec.Refines.refl _ _) fun _ => ?_
          exact Exec.Refines.bind (Exec.Refines.refl _ _) fun child => ih child

theorem scanLeaves_refines (fuel : Nat) (id : PageId) (key : IndexKey) :
    Exec.Refines .outOfFuel (scanLeaves fuel id key : Db S (List RowId))
      (scanLeaves (fuel + 1) id key) := by
  induction fuel generalizing id with
  | zero => exact Exec.refines_fail _ _
  | succ fuel ih =>
      refine Exec.Refines.bind (Exec.Refines.refl _ _) ?_
      intro node
      cases node with
      | internal keys children => exact Exec.Refines.refl _ _
      | leaf nextLeaf entries =>
          simp only
          split
          · exact Exec.Refines.refl _ _
          · cases nextLeaf with
            | none => exact Exec.Refines.refl _ _
            | some next => exact Exec.Refines.bind (ih next) fun _ => Exec.Refines.refl _ _

theorem lookup_refines (fuel : Nat) (root : PageId) (key : IndexKey) :
    Exec.Refines .outOfFuel (lookup fuel root key : Db S (List RowId))
      (lookup (fuel + 1) root key) :=
  Exec.Refines.bind (findLeaf_refines fuel root key) fun leaf => scanLeaves_refines fuel leaf key

end Scan

end Rdbms
