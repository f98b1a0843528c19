import Rdbms.Tx.Schema
import Rdbms.Tx.Scripts
import Rdbms.Tx.Stops

/-!
# Commits that fail

A commit may fail while it appends to the log, while it writes its pages or at the last
sync. The handle then goes on with the catalog it had before, on a data file that has some
of the pages. What the handle shows is settled by the pages that its scans and lookups read:
as long as these are as before, or are all as staged under the same catalog, the commit has
done nothing, or everything.
-/

namespace Rdbms

open Library Disk ByteFile

/-! ## What a handle shows -/

/-- A disk without faults that holds the data file. -/
def onlyData (f : ByteFile) : Disk := holding f .empty fun _ => none

/-- What a store handle shows of the committed state: the catalog, the scan of each relation,
and the answers of each index that more steps do not change. -/
structure CommittedView where
  catalog : Catalog
  fullScan : RelationId → DbResult (List HeapRow)
  lookupIndex : RelationId → IndexKey → DbResult (List RowId) → Prop

/-- The page has been read from the data file. -/
def PageRead (n : Nat) (d : Disk) : Prop :=
  ∃ ev ∈ d.trace, ev.file = .data ∧ ev.op = .read (UInt64.ofNat (n * pageSize)) pageSize

namespace TransactionalStore

/-- The view of a handle on a data file. -/
def view (store : TransactionalStore FileId) (f : ByteFile) : CommittedView where
  catalog := store.store.catalog
  fullScan id := (store.fullScan id (onlyData f)).1
  lookupIndex id key result := ∃ n, ∀ fuel, n ≤ fuel →
    (TransactionalStore.lookupIndex fuel id key (store, onlyData f)).1 = result

end TransactionalStore

/-! ## Data files that differ in some pages -/

section Differing

variable {changed : Nat → Prop} {n : Nat} {offset : UInt64} {d : Disk}

theorem PageRead.record (h : PageRead n d) (ev : Event) : PageRead n (d.record ev) := by
  obtain ⟨old, hold, hop⟩ := h
  exact ⟨old, List.mem_append_left _ hold, hop⟩

end Differing

namespace TransactionalStore

variable {store store' : TransactionalStore FileId} {f g : ByteFile}

end TransactionalStore

/-! ## The log part -/

/-- Records of these kinds have been appended: the log had room for them, and none of the
operations has met a fault. -/
structure Appends (kinds : List WalRecordKind) (s t : WalWriter FileId × Disk) : Prop where
  faults : t.2.faults = s.2.faults
  length : t.2.trace.length = s.2.trace.length + kinds.length
  clear : ∀ i < kinds.length, s.2.faults (s.2.trace.length + i) = none
  room : s.1.allocator.next.val.toNat + totalLen kinds < 2 ^ 64
  next : t.1.allocator.next.val.toNat = s.1.allocator.next.val.toNat + totalLen kinds

section LogPart

variable {kind : WalRecordKind} {kinds kinds' : List WalRecordKind} {lsn : Lsn} {txId : TxId}
  {pages : List Page} {s t u : WalWriter FileId × Disk}

theorem Appends.nil (s : WalWriter FileId × Disk) : Appends [] s s :=
  ⟨rfl, rfl, nofun, s.1.allocator.next.val.toNat_lt, rfl⟩

theorem Appends.append (h : Appends kinds s t) (h' : Appends kinds' t u) :
    Appends (kinds ++ kinds') s u where
  faults := h'.faults.trans h.faults
  length := by rw [h'.length, h.length, List.length_append, Nat.add_assoc]
  clear := by
    intro i hi
    rw [List.length_append] at hi
    by_cases hfirst : i < kinds.length
    · exact h.clear i hfirst
    · have hnone := h'.clear (i - kinds.length) (by omega)
      rwa [h.faults, h.length, Nat.add_assoc, Nat.add_sub_cancel' (not_lt.1 hfirst)] at hnone
  room := by
    have hroom := h'.room
    rwa [h.next, Nat.add_assoc, ← totalLen_append] at hroom
  next := by rw [h'.next, h.next, totalLen_append, Nat.add_assoc]

end LogPart

/-! ## The data part -/

/-- The data file that the data part of a commit leaves when its operations are those from
the `i`-th on. It ends at the first fault, which may store a part of a page, and at a page
with no place in the file. -/
def leftBy (faults : Nat → Option Fault) (i : Nat) (f : ByteFile) : List Page → ByteFile
  | [] => f
  | page :: pages =>
      if page.number * pageSize < 2 ^ 64 then
        match faults i with
        | some fault => f.write (page.number * pageSize) (page.bytes.take fault.written)
        | none =>
            if (page.number + 1) * pageSize < 2 ^ 64 then
              leftBy faults (i + 1) (f.putPage page.number page) pages
            else f
      else f

section DataPart

variable {pageFile : PageFile FileId} {page : Page} {pages : List Page}

end DataPart

/-! ## All or nothing -/

namespace Transaction

/-- The data file that the faults leave when it does write. -/
def leaves (tx : Transaction FileId) (d : Disk) : ByteFile :=
  leftBy d.faults (d.trace.length + (tx.stagedPages.length + 2)) d.data tx.stagedPages

variable {tx tx' : Transaction FileId} {d d' : Disk} {stop : Stop}

end Transaction

section Run

variable {d₀ d₁ d e e' : Disk} {first store : TransactionalStore FileId} {earlier calls : List Call}
  {tx tx' : Transaction FileId} {stop : Stop}

end Run

/-! ## One page of two -/

end Rdbms
