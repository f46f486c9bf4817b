import Mathlib.Data.List.Nodup

/-!
A single pass over items that settles the key of one after the other: its value is computed
from what is known when its turn comes, the values settled before and the initial values of all
others.
-/

namespace OnePass

variable {ι K V : Type} [DecidableEq K]

def patch (start final : K → V) (settled : List K) : K → V :=
  fun key => if key ∈ settled then final key else start key

def assign (known : K → V) (key : K) (value : V) : K → V :=
  fun other => if other = key then value else known other

variable (key : ι → K) (settle : ι → (K → V) → Option V)

def run : List ι → (K → V) → Option (K → V)
  | [], known => some known
  | item :: rest, known =>
    (settle item known).bind fun value => run rest (assign known (key item) value)

variable {key settle} {start final : K → V} {items : List ι}

end OnePass
