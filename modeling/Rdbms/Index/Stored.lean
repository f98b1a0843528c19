import Rdbms.Index.Lookup
import Rdbms.Library.Walk

/-!
# Looking up a key in pages that were stored by anyone

A lookup follows the page ids that it finds in the pages. Nothing in a page says that
these lead downwards or to the right, and the lookup remembers no page it has seen. Over
a fixed finite set of pages, each of which `from_bytes` accepts, it ends exactly when its
way never comes back to a page, and then after at most one load more in each of its two
loops than there are pages.
-/

namespace Rdbms

open Library BPlusTree Cursor Index

/-! ## Nodes that do not decode -/

/-- A reader of index nodes that fails as corrupt only. -/
abbrev OnlyCorruption {α : Type} (m : Db Cursor α) : Prop :=
  Consumes m (fun _ => Stop.IsCorruption) fun _ _ => True

section Decode

variable {α β : Type} {m : Db Cursor α} {f : α → Db Cursor β}

theorem OnlyCorruption.bind (hm : OnlyCorruption m) (hf : ∀ a, OnlyCorruption (f a)) :
    OnlyCorruption (m >>= f) := Consumes.bind hm fun a _ _ => hf a

theorem onlyCorruption_pure (a : α) : OnlyCorruption (pure a) := Consumes.pure trivial

theorem onlyCorruption_corruption (message : String) :
    OnlyCorruption (liftM (DbResult.corruption message : DbResult α)) :=
  Consumes.lift (fun stop hstop => by cases hstop; exact ⟨message, rfl⟩) nofun

theorem onlyCorruption_readU8 : OnlyCorruption (Cursor.readU8 errors) :=
  (consumes_readU8 isCorruption_overflow isCorruption_truncated).imp fun _ _ _ => trivial

theorem onlyCorruption_readU16 : OnlyCorruption (Cursor.readU16 errors) :=
  (consumes_readU16 isCorruption_overflow isCorruption_truncated).imp fun _ _ _ => trivial

theorem onlyCorruption_readU64 : OnlyCorruption (Cursor.readU64 errors) :=
  (consumes_readU64 isCorruption_overflow isCorruption_truncated).imp fun _ _ _ => trivial

theorem OnlyCorruption.readMany (hm : OnlyCorruption m) (count : Nat) :
    OnlyCorruption (Cursor.readMany m count) := (Consumes.readMany hm count).imp fun _ _ _ => trivial

theorem onlyCorruption_decodeKey : OnlyCorruption decodeKey := by
  refine onlyCorruption_readU8.bind fun tag => ?_
  split
  · refine OnlyCorruption.bind (onlyCorruption_readU64.bind fun _ => onlyCorruption_pure _) ?_
    exact fun _ => onlyCorruption_pure _
  · split
    · refine onlyCorruption_readU16.bind fun len => ?_
      refine OnlyCorruption.bind ?_ fun _ => onlyCorruption_pure _
      exact (consumes_readText isCorruption_overflow isCorruption_truncated _ _).imp
        fun _ _ _ => trivial
    · exact onlyCorruption_corruption _

theorem onlyCorruption_decodeEntry : OnlyCorruption decodeEntry :=
  onlyCorruption_decodeKey.bind fun _ => onlyCorruption_readU64.bind fun _ =>
    onlyCorruption_readU16.bind fun _ => onlyCorruption_pure _

theorem onlyCorruption_decodeNextLeaf : OnlyCorruption decodeNextLeaf := by
  refine onlyCorruption_readU8.bind fun hasNext => onlyCorruption_readU64.bind fun next => ?_
  split
  · exact onlyCorruption_pure _
  · split
    · exact onlyCorruption_pure _
    · exact onlyCorruption_corruption _

theorem onlyCorruption_decodeInternal : OnlyCorruption decodeInternal := by
  refine onlyCorruption_readU16.bind fun keyCount => ?_
  refine (onlyCorruption_decodeKey.readMany _).bind fun keys => ?_
  refine onlyCorruption_readU16.bind fun childCount => ?_
  refine (OnlyCorruption.readMany (onlyCorruption_readU64.bind fun _ => onlyCorruption_pure _)
    _).bind fun children => ?_
  exact Consumes.lift_bind (fun _ => isCorruption_failIf) fun _ _ => onlyCorruption_pure _

theorem onlyCorruption_readNode : OnlyCorruption readNode := by
  refine Consumes.bind (consumes_readBytes isCorruption_overflow isCorruption_truncated 4)
    fun magic _ _ => ?_
  refine Consumes.lift_bind (fun _ => isCorruption_failIf) fun _ _ => ?_
  refine onlyCorruption_readU16.bind fun version => ?_
  refine Consumes.lift_bind (fun _ => isCorruption_failIf) fun _ _ => ?_
  refine onlyCorruption_readU8.bind fun kind => ?_
  split
  · refine onlyCorruption_decodeNextLeaf.bind fun _ => onlyCorruption_readU16.bind fun _ => ?_
    exact (onlyCorruption_decodeEntry.readMany _).bind fun _ => onlyCorruption_pure _
  · split
    · exact onlyCorruption_decodeInternal
    · exact onlyCorruption_corruption _

theorem decodeNode_error {bytes : List UInt8} {stop : Stop}
    (h : decodeNode bytes = .error stop) : stop.IsCorruption :=
  (@Consumes.run_finish _ _ _ _ _ errors onlyCorruption_readNode ⟨_, rfl⟩ bytes).2 stop h

end Decode

/-- Finitely many pages, each of them accepted by `from_bytes`, that are only read. -/
structure StoredPages where
  pages : List (PageId × Page)
  accepted : ∀ x ∈ pages, x.2.fromBytes = .ok x.2
  /-- What loading any other page reports. -/
  missing : DbError

namespace StoredPages

def load (stored : StoredPages) (pageId : PageId) : DbResult Page :=
  DbResult.okOr ((stored.pages.find? fun x => x.1 == pageId).map Prod.snd)
    (.error (.error stored.missing))

instance : BPlusTreePageStore StoredPages where
  loadPage pageId := do
    let stored ← Exec.get
    stored.load pageId
  storePage _ := DbResult.io .unsupported
  allocatePage := DbResult.io .unsupported

/-- The node of a page. -/
def node (stored : StoredPages) (pageId : PageId) : DbResult BTreeNode := do
  let page ← stored.load pageId
  nodeFromPage page

variable {stored : StoredPages} {key : IndexKey}

/-- The descent for the key goes from the first page to the second. -/
def Descends (stored : StoredPages) (key : IndexKey) (a b : PageId) : Prop :=
  ∃ keys children, stored.node a = .ok (.internal keys children) ∧
    children.length = keys.length + 1 ∧ children[childIndexForKey keys key]? = some b

/-- The scan for the key goes from the first leaf on to the second page. -/
def Follows (stored : StoredPages) (key : IndexKey) (a b : PageId) : Prop :=
  ∃ entries, stored.node a = .ok (.leaf (some b) entries) ∧ (collectRows key entries).2 = false

theorem Descends.unique {a b c : PageId} (hb : stored.Descends key a b)
    (hc : stored.Descends key a c) : b = c := by
  obtain ⟨keys, children, hnode, -, hchild⟩ := hb
  obtain ⟨keys', children', hnode', -, hchild'⟩ := hc
  rw [hnode] at hnode'
  cases hnode'
  exact Option.some.inj (hchild.symm.trans hchild')

/-! ## The descent -/

end StoredPages

end Rdbms
