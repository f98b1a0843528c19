import Rdbms.Index.Node

/-!
# What the tree relies on

`LawfulPageStore` is the contract of the page store the tree runs over: a page
that has been stored is loaded again, and an allocated page id is one that has
neither been stored nor allocated before. The rest of the module reads the
elementary steps of the algorithm through this contract.
-/

namespace Rdbms

open Library BPlusTree

/-- The contract of a page store. `Good` are the states in which the store works,
`pages` gives the page last stored under an id and `used` the ids that have been
stored or allocated. `Storable` are the ids that may be stored without being handed
out by a later allocation; a store that never hands out a stored id takes all. -/
structure LawfulPageStore (S : Type) [BPlusTreePageStore S] where
  Good : S → Prop
  pages : S → PageId → Option Page
  used : S → PageId → Prop
  Storable : S → PageId → Prop
  storable_of_used : ∀ {s id}, Good s → used s id → Storable s id
  used_of_stored : ∀ {s id page}, Good s → pages s id = some page → used s id
  load : ∀ {s id page}, Good s → pages s id = some page →
    ∃ t, BPlusTreePageStore.loadPage id s = (.ok page, t) ∧ Good t ∧
      (∀ i, used s i → used t i) ∧ ∀ i p, pages s i = some p → pages t i = some p
  store : ∀ {s t page header}, Good s → page.header = .ok header → Storable s header.pageId →
    BPlusTreePageStore.storePage page s = (.ok (), t) →
    Good t ∧ pages t header.pageId = some page ∧ (∀ i, used s i → used t i) ∧
      ∀ i p, i ≠ header.pageId → pages s i = some p → pages t i = some p
  allocate : ∀ {s t id}, Good s → BPlusTreePageStore.allocatePage s = (.ok id, t) →
    Good t ∧ ¬ used s id ∧ used t id ∧ (∀ i, used s i → used t i) ∧
      ∀ i p, pages s i = some p → pages t i = some p

namespace LawfulPageStore

variable {S : Type} [BPlusTreePageStore S] (model : LawfulPageStore S)

/-- The node stored under a page id. -/
def view (s : S) (id : PageId) : Option BTreeNode :=
  (model.pages s id).bind fun page => (nodeFromPage page).toOption

/-- Nothing but the touched pages has changed on the way from `s` to `t`. -/
structure Keeps (touched : PageId → Prop) (s t : S) : Prop where
  good : model.Good t
  used : ∀ i, model.used s i → model.used t i
  pages : ∀ i page, ¬ touched i → model.pages s i = some page → model.pages t i = some page

variable {model} {s t u : S} {touched touched' : PageId → Prop}

theorem Keeps.view (h : model.Keeps touched s t) {i : PageId} {node : BTreeNode}
    (hi : ¬ touched i) (hnode : model.view s i = some node) : model.view t i = some node := by
  obtain ⟨page, hpage, hdecode⟩ := Option.bind_eq_some_iff.1 hnode
  exact Option.bind_eq_some_iff.2 ⟨page, h.pages i page hi hpage, hdecode⟩

theorem Keeps.trans (h : model.Keeps touched s t) (h' : model.Keeps touched' t u)
    (hsub : ∀ i, touched' i → touched i ∨ ¬ model.used s i) (hs : model.Good s) :
    model.Keeps touched s u where
  good := h'.good
  used := fun i hi => h'.used i (h.used i hi)
  pages := by
    intro i page hi hpage
    refine h'.pages i page ?_ (h.pages i page hi hpage)
    intro htouched
    rcases hsub i htouched with hmem | hunused
    · exact hi hmem
    · exact hunused (model.used_of_stored hs hpage)

theorem Keeps.mono (h : model.Keeps touched s t) (hsub : ∀ i, touched i → touched' i) :
    model.Keeps touched' s t where
  good := h.good
  used := h.used
  pages := fun i page hi => h.pages i page fun htouched => hi (hsub i htouched)

/-- Loading a stored node. -/
theorem loadNode_of_view (hs : model.Good s) {id : PageId} {node : BTreeNode}
    (h : model.view s id = some node) :
    ∃ t, loadNode id s = (.ok node, t) ∧ model.Keeps (fun _ => False) s t := by
  obtain ⟨page, hpage, hdecode⟩ := Option.bind_eq_some_iff.1 h
  obtain ⟨t, hload, hgood, hused, hpages⟩ := model.load hs hpage
  have hnode : nodeFromPage page = .ok node := by
    cases hresult : nodeFromPage page with
    | error e =>
        rw [hresult] at hdecode
        cases hdecode
    | ok n =>
        rw [hresult] at hdecode
        cases hdecode
        rfl
  refine ⟨t, ?_, hgood, hused, fun i page _ => hpages i page⟩
  rw [loadNode, Exec.bind_of_ok hload, hnode]
  rfl

/-- A node that has been stored is there. -/
theorem storeNode_eq_ok (hs : model.Good s) {id : PageId} {node : BTreeNode}
    (hid : model.Storable s id) (h : storeNode id node s = (.ok (), t)) :
    model.Keeps (fun i => i = id) s t ∧ model.view t id = some node ∧ model.used t id := by
  obtain ⟨page, u, hlift, hstore⟩ := Exec.bind_eq_ok.1 h
  obtain ⟨hpage, rfl⟩ := Exec.liftM_eq_ok.1 hlift
  obtain ⟨⟨header, hvalid, rfl, -⟩, hnode⟩ := nodeToPage_eq_ok hpage
  obtain ⟨hgood, hself, hused, hother⟩ :=
    model.store hs ((Page.header_eq_ok_iff page header).2 hvalid.toShape) hid hstore
  refine ⟨⟨hgood, hused, hother⟩, ?_, model.used_of_stored hgood hself⟩
  exact Option.bind_eq_some_iff.2 ⟨page, hself, by rw [hnode]; rfl⟩

theorem allocate_eq_ok (hs : model.Good s) {id : PageId}
    (h : BPlusTreePageStore.allocatePage s = (.ok id, t)) :
    model.Keeps (fun _ => False) s t ∧ ¬ model.used s id ∧ model.used t id := by
  obtain ⟨hgood, hfresh, hnow, hused, hpages⟩ := model.allocate hs h
  exact ⟨⟨hgood, hused, fun i page _ => hpages i page⟩, hfresh, hnow⟩

end LawfulPageStore

end Rdbms
