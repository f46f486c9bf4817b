import Mathlib.Algebra.GroupWithZero.Nat
import Mathlib.Data.List.Basic

/-! Symbols and source positions, shared by the syntax-level passes and their caches. -/

namespace Gruel

-- `lasso::Spur` is a `NonZeroU32` one above the index, so no symbol has index `u32::MAX`.
abbrev Spur := Fin 4294967295

instance Spur.instNeZero : NeZero 4294967295 := ⟨by decide⟩

abbrev FileId := BitVec 32

namespace FileId

-- The prelude and built-in sentinels sit at the top of the range.
def default : FileId := 0

end FileId

structure Span where
  fileId : FileId
  start : BitVec 32
  stop : BitVec 32
  deriving DecidableEq, Repr

namespace Span

def new (start stop : BitVec 32) : Span := ⟨FileId.default, start, stop⟩

def withFile (fileId : FileId) (start stop : BitVec 32) : Span := ⟨fileId, start, stop⟩

def len (span : Span) : BitVec 32 := span.stop - span.start

end Span

end Gruel
