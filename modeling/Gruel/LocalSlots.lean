import Gruel.Encoding
import Gruel.ParamsCore

/-!
The slots sema hands out to locals: a counter that each binding site advances by its own idea of
how many slots the type takes.
-/

namespace Gruel

namespace LocalSlots

inductive Site
  | alloc | arraySpill | sliceSpill | fieldTemp | indexTemp
  | rangeCounter | loopCounter | loopBinding | patternBinding | destructureTemp | fieldBinding
  deriving DecidableEq, Repr

structure Local where
  site : Site
  ty : Ty
  born : Nat
  dies : Option Nat
  deriving DecidableEq, Repr

/-- How far the site moves `next_slot`: the first family by the ABI count of the type, the second by
one whatever the type. -/
def Local.slots (pool : LayoutPool) (entry : Local) : Nat :=
  match entry.site with
  | .alloc | .arraySpill | .sliceSpill | .fieldTemp | .indexTemp => Params.abiSlotCount pool entry.ty
  | .rangeCounter | .loopCounter | .loopBinding | .patternBinding | .destructureTemp
  | .fieldBinding => 1

/-- A part of a function body as far as it takes slots. `expr` runs its parts in order: calls,
operators, wildcard lets. -/
inductive Body
  | done
  | expr (first rest : Body)
  | alloc (ty : Ty) (init rest : Body)
  | block (body rest : Body)
  | arm (bindings : List Ty) (body rest : Body)
  | rangeFor (ty : Ty) (bounds body rest : Body)
  | arrayFor (ty elem : Ty) (array body rest : Body)
  | sliceFor (ty elem : Ty) (slice body rest : Body)
  | fieldGet (ty : Ty) (base rest : Body)
  | indexGet (ty : Ty) (base index rest : Body)
  | destructure (ty : Ty) (fields : List Ty) (init rest : Body)

abbrev Walk := Nat → List Local × Nat

namespace Walk

def nothing : Walk := fun clock => ([], clock)

def andThen (first second : Walk) : Walk := fun clock =>
  let before := first clock
  let after := second before.2
  (before.1 ++ after.1, after.2)

def takes (site : Site) (ty : Ty) (init : Walk) : Walk := fun clock =>
  let before := init (clock + 1)
  (before.1 ++ [⟨site, ty, clock, none⟩], before.2)

def enclosed (inner : Walk) : Walk := fun clock =>
  let inside := inner clock
  (inside.1.map fun entry => { entry with dies := some (entry.dies.getD inside.2) }, inside.2 + 1)

def takesEach (site : Site) (tys : List Ty) (inner : Walk) : Walk :=
  tys.foldl (fun walk ty => takes site ty walk) inner

def forLoop (hidden : Walk) (ty : Ty) (body : Walk) : Walk :=
  enclosed (hidden.andThen (enclosed ((takes .loopBinding ty nothing).andThen body)))

end Walk

open Walk

def Body.walk : Body → Walk
  | .done => nothing
  | .expr first rest => first.walk.andThen rest.walk
  | .alloc ty init rest => (takes .alloc ty init.walk).andThen rest.walk
  | .block body rest => (enclosed body.walk).andThen rest.walk
  | .arm bindings body rest =>
    (enclosed ((takesEach .patternBinding bindings nothing).andThen body.walk)).andThen rest.walk
  | .rangeFor ty bounds body rest =>
    (forLoop (takes .rangeCounter ty bounds.walk) ty body.walk).andThen rest.walk
  | .arrayFor ty elem array body rest =>
    (forLoop ((takes .arraySpill ty array.walk).andThen (takes .loopCounter .i32 nothing)) elem
      body.walk).andThen rest.walk
  | .sliceFor ty elem slice body rest =>
    (forLoop ((takes .sliceSpill ty slice.walk).andThen (takes .loopCounter .usize nothing)) elem
      body.walk).andThen rest.walk
  | .fieldGet ty base rest => (enclosed (takes .fieldTemp ty base.walk)).andThen rest.walk
  | .indexGet ty base index rest =>
    (enclosed (takes .indexTemp ty (base.walk.andThen index.walk))).andThen rest.walk
  | .destructure ty fields init rest =>
    (takesEach .fieldBinding fields (enclosed (takes .destructureTemp ty init.walk))).andThen rest.walk

def Body.locals (body : Body) : List Local := (enclosed body.walk 0).1

def slotsFrom (pool : LayoutPool) : Nat → List Local → List Nat
  | _, [] => []
  | next, entry :: entries => next :: slotsFrom pool ((next + entry.slots pool) % 2 ^ 32) entries

/-- The slot of each local of a function body; `next_slot` starts at zero and wraps at 32 bits. -/
def Body.slots (pool : LayoutPool) (body : Body) : List Nat := slotsFrom pool 0 body.locals

def taken (pool : LayoutPool) (entries : List Local) : Nat :=
  (entries.map (Local.slots pool)).sum

end LocalSlots

end Gruel
