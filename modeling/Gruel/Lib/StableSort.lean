import Mathlib.Data.List.Sort

/-!
Stable sorting by a key.  Entries with equal keys keep their order, and that order is all
that is left of the original one.
-/

namespace StableSort

variable {Entry Key View : Type} [LE Key] [DecidableLE Key]

def sortBy (key : Entry → Key) (entries : List Entry) : List Entry :=
  entries.insertionSort fun first second => key first ≤ key second

section Ordered

variable [Std.IsLinearOrder Key] {key : Entry → Key}
variable {shown : View → Key} {entries : List Entry}

variable {view : Entry → View}

end Ordered

end StableSort
