import Gruel.Lib.Yields
import Gruel.Lib.Blocks
import Gruel.Lib.Traces

/-!
The prelude's `Vec(T)`: the three-word representation and its operations over
raw memory, with wrapping `usize` arithmetic, and a store of vector variables on
which sequences of operations run.
-/

namespace Gruel.PreludeVec

open TotalRun Blocks

inductive Ownership
  | copy
  | affine
  | linear
  deriving DecidableEq, Repr

def usizeLimit : Nat := 2 ^ 64

def usizeAdd (left right : Nat) : Nat := (left + right) % usizeLimit

def usizeMul (left right : Nat) : Nat := left * right % usizeLimit

inductive Stop
  | panic (message : String)
  | fault (fault : Fault)
  | moved
  deriving DecidableEq, Repr

structure VecRep where
  ptr : Ptr
  len : Nat
  cap : Nat
  deriving DecidableEq, Repr

/-- A borrowed slice of elements that the operation does not change. -/
structure Slice (V : Type) where
  elements : List V
  fits : elements.length < usizeLimit

structure VecHeap (V : Type) where
  memory : Memory V
  /-- The elements whose destructor ran, in order. -/
  released : List V

abbrev VecRun (V α : Type) := Action (VecHeap V) Stop α

section Primitives

variable {V α : Type} (size : Nat)

def stopWith (stop : Stop) : VecRun V α := fun _ => .error stop

def memAlloc (bytes : Nat) : VecRun V Ptr := fun heap =>
  let allocated := malloc heap.memory bytes
  .ok (allocated.1, { heap with memory := allocated.2 })

def memRealloc (pointer : Ptr) (bytes : Nat) : VecRun V Ptr := fun heap =>
  match realloc size heap.memory pointer bytes with
  | .ok (moved, memory) => .ok (moved, { heap with memory := memory })
  | .error fault => .error (.fault fault)

def memFree (pointer : Ptr) : VecRun V Unit := fun heap =>
  match free heap.memory pointer with
  | .ok memory => .ok ((), { heap with memory := memory })
  | .error fault => .error (.fault fault)

def readAt (pointer : Ptr) (index : Nat) : VecRun V V := fun heap =>
  match read size heap.memory pointer index with
  | .ok value => .ok (value, heap)
  | .error fault => .error (.fault fault)

def writeAt (pointer : Ptr) (index : Nat) (value : V) : VecRun V Unit := fun heap =>
  match write size heap.memory pointer index value with
  | .ok memory => .ok ((), { heap with memory := memory })
  | .error fault => .error (.fault fault)

def release (value : V) : VecRun V Unit := fun heap =>
  .ok ((), { heap with released := heap.released ++ [value] })

def readSlice (slice : Slice V) (index : Nat) : VecRun V V := match slice.elements[index]? with
  | some value => pure value
  | none => stopWith (.panic "index out of bounds")

def copyElements (source : Nat → VecRun V V) (dst : Ptr) (place : Nat → Nat) (count : Nat) : VecRun V Unit := do
  let _ ← loopFrom (fun index => do
    let x ← source index
    writeAt size dst (place index) x
    pure (none : Option Unit)) count 0

def dropElements (pointer : Ptr) (count : Nat) : VecRun V Unit := do
  let _ ← loopFrom (fun index => do
    let x ← readAt size pointer index
    release x
    pure (none : Option Unit)) count 0

end Primitives

section Operations

variable {V : Type} (size : Nat) (ownership : Ownership) (eq lt : V → V → Bool)

def vecNew : VecRep := ⟨.null, 0, 0⟩

def vecWithCapacity (n : Nat) : VecRun V VecRep := do
  if n = 0 then
    pure vecNew
  else
    let p ← memAlloc (usizeMul n size)
    pure ⟨p, 0, n⟩

def grownCap (cap : Nat) : Nat := if cap = 0 then 4 else usizeMul cap 2

def growFirst (v : VecRep) (newCap : Nat) : VecRun V VecRep := do
  let p ← memAlloc (usizeMul newCap size)
  copyElements size (readAt size v.ptr) p id v.len
  pure { v with ptr := p, cap := newCap }

def growAgain (v : VecRep) (newCap : Nat) : VecRun V VecRep := do
  let p ← memRealloc size v.ptr (usizeMul newCap size)
  pure { v with ptr := p, cap := newCap }

def growForPush (v : VecRep) : VecRun V VecRep := if v.len = v.cap then
    if v.cap = 0 then growFirst size v (grownCap v.cap) else growAgain size v (grownCap v.cap)
  else pure v

def vecPush (v : VecRep) (value : V) : VecRun V VecRep := do
  let v ← growForPush size v
  writeAt size v.ptr v.len value
  pure { v with len := usizeAdd v.len 1 }

def vecPop (v : VecRep) : VecRun V (V × VecRep) := do
  if v.len = 0 then
    stopWith (.panic "Vec::pop on empty Vec")
  else
    let v := { v with len := v.len - 1 }
    let x ← readAt size v.ptr v.len
    pure (x, v)

/-- `comptime if @ownership(T) == Ownership::Affine { .. }` -/
def ifAffine (action : VecRun V Unit) : VecRun V Unit :=
  if ownership = .affine then action else pure ()

def freeBuffer (v : VecRep) : VecRun V Unit := if v.cap ≠ 0 then memFree v.ptr else pure ()

def vecClear (v : VecRep) : VecRun V VecRep := do
  ifAffine ownership (dropElements size v.ptr v.len)
  pure { v with len := 0 }

def reserveCap (v : VecRep) (additional : Nat) : Nat := let needed := usizeAdd v.len additional
  let doubled := grownCap v.cap
  if doubled < needed then needed else doubled

def vecReserve (v : VecRep) (additional : Nat) : VecRun V VecRep := do
  if usizeAdd v.len additional ≤ v.cap then
    pure v
  else if v.cap = 0 then
    growFirst size v (reserveCap v additional)
  else
    growAgain size v (reserveCap v additional)

def vecIndexRead (v : VecRep) (i : Nat) : VecRun V V := do
  if i ≥ v.len then
    stopWith (.panic "Vec index out of bounds")
  else
    readAt size v.ptr i

def vecIndexWrite (v : VecRep) (i : Nat) (value : V) : VecRun V Unit := do
  if i ≥ v.len then
    stopWith (.panic "Vec index out of bounds")
  else
    ifAffine ownership do
      let displaced ← readAt size v.ptr i
      release displaced
    writeAt size v.ptr i value

def growForTerminator (v : VecRep) : VecRun V VecRep :=
  if v.len = v.cap then growAgain size v (grownCap v.cap) else pure v

def vecTerminatedPtr (v : VecRep) (s : V) : VecRun V (Ptr × VecRep) := do
  let v ← growForTerminator size v
  writeAt size v.ptr v.len s
  pure (v.ptr, v)

def vecDrop (v : VecRep) : VecRun V Unit := do
  ifAffine ownership (dropElements size v.ptr v.len)
  freeBuffer v

def vecClone (v : VecRep) : VecRun V VecRep := do
  if v.len = 0 then
    pure vecNew
  else
    let dst ← memAlloc (usizeMul v.len size)
    copyElements size (readAt size v.ptr) dst id v.len
    pure ⟨dst, v.len, v.len⟩

def vecEq (v other : VecRep) : VecRun V Bool := do
  if v.len ≠ other.len then
    pure false
  else
    let differs ← loopFrom (fun index => do
      let a ← readAt size v.ptr index
      let b ← readAt size other.ptr index
      pure (if !eq a b then some () else none)) v.len 0
    pure differs.isNone

def vecCmp (v other : VecRep) : VecRun V Ordering := do
  let n := if v.len < other.len then v.len else other.len
  let decided ← loopFrom (fun index => do
    let a ← readAt size v.ptr index
    let b ← readAt size other.ptr index
    pure (if lt a b then some Ordering.lt else if lt b a then some Ordering.gt else none)) n 0
  match decided with
  | some ordering => pure ordering
  | none =>
    if v.len < other.len then pure .lt
    else if other.len < v.len then pure .gt
    else pure .eq

def matchSlice (v : VecRep) (slice : Slice V) (place : Nat → Nat) : VecRun V Bool := do
  let differs ← loopFrom (fun k => do
    let a ← readAt size v.ptr (place k)
    let b ← readSlice slice k
    pure (if !eq a b then some () else none)) slice.elements.length 0
  pure differs.isNone

def vecContains (v : VecRep) (needle : Slice V) : VecRun V Bool := do
  let nlen := needle.elements.length
  if nlen = 0 then
    pure true
  else if nlen > v.len then
    pure false
  else
    let found ← loopFrom (fun i => do
      let matched ← matchSlice size eq v needle (usizeAdd i)
      pure (if matched then some () else none)) (usizeAdd (v.len - nlen) 1) 0
    pure found.isSome

def vecStartsWith (v : VecRep) (start : Slice V) : VecRun V Bool := do
  if start.elements.length > v.len then
    pure false
  else
    matchSlice size eq v start id

def vecEndsWith (v : VecRep) (ending : Slice V) : VecRun V Bool := do
  if ending.elements.length > v.len then
    pure false
  else
    matchSlice size eq v ending (usizeAdd (v.len - ending.elements.length))

def vecConcat (v : VecRep) (other : Slice V) : VecRun V VecRep := do
  let total := usizeAdd v.len other.elements.length
  if total = 0 then
    pure vecNew
  else
    let dst ← memAlloc (usizeMul total size)
    copyElements size (readAt size v.ptr) dst id v.len
    copyElements size (readSlice other) dst (usizeAdd v.len) other.elements.length
    freeBuffer v
    pure ⟨dst, total, total⟩

def vecExtendFromSlice (v : VecRep) (other : Slice V) : VecRun V VecRep := do
  let v ← vecReserve size v other.elements.length
  copyElements size (readSlice other) v.ptr (usizeAdd v.len) other.elements.length
  pure { v with len := usizeAdd v.len other.elements.length }

def stringConst (bytes : Slice V) : VecRun V VecRep := fun heap =>
  let stored := allocStatic size heap.memory bytes.elements
  .ok (⟨stored.1, bytes.elements.length, 0⟩, { heap with memory := stored.2 })

end Operations

inductive Op (V : Type)
  | new
  | withCapacity (n : UInt64)
  | literal (bytes : Slice V)
  | push (v : Nat) (value : V)
  | pop (v : Nat)
  | reserve (v : Nat) (additional : UInt64)
  | clear (v : Nat)
  | indexRead (v : Nat) (i : UInt64)
  | indexWrite (v : Nat) (i : UInt64) (value : V)
  | terminatedPtr (v : Nat) (s : V)
  | clone (v : Nat)
  | concat (v : Nat) (other : Slice V)
  | extendFromSlice (v : Nat) (other : Slice V)
  | eq (v other : Nat)
  | cmp (v other : Nat)
  | contains (v : Nat) (needle : Slice V)
  | startsWith (v : Nat) (start : Slice V)
  | endsWith (v : Nat) (ending : Slice V)
  | drop (v : Nat)

inductive OpResult (V : Type)
  | unit
  | made (v : Nat)
  | value (value : V)
  | bool (value : Bool)
  | ordering (value : Ordering)
  | pointer (pointer : Ptr)
  deriving DecidableEq, Repr

structure VecStore (V : Type) where
  heap : VecHeap V
  vecs : List (Option VecRep)

def held {α : Type} (vecs : List (Option α)) (v : Nat) : Option α := (vecs[v]?).join

def VecStore.empty {V : Type} : VecStore V := ⟨⟨[], []⟩, []⟩

section Machine

variable {V : Type} (size : Nat) (ownership : Ownership) (eq lt : V → V → Bool)

abbrev StoreStep (V : Type) := Except Stop (OpResult V × VecStore V)

def VecStore.withVec (store : VecStore V) (v : Nat) (next : VecRep → StoreStep V) : StoreStep V :=
  match held store.vecs v with
  | some rep => next rep
  | none => .error .moved

def VecStore.after {α : Type} (store : VecStore V) (action : VecRun V α)
    (next : α → VecStore V → OpResult V × VecStore V) : StoreStep V :=
  match action store.heap with
  | .ok (result, heap) => .ok (next result { store with heap := heap })
  | .error stop => .error stop

def VecStore.put (store : VecStore V) (v : Nat) (rep : Option VecRep) : VecStore V :=
  { store with vecs := store.vecs.set v rep }

def VecStore.bind (store : VecStore V) (rep : VecRep) : OpResult V × VecStore V :=
  (.made store.vecs.length, { store with vecs := store.vecs ++ [some rep] })

def step (op : Op V) (store : VecStore V) : StoreStep V := match op with
  | .new => .ok (store.bind vecNew)
  | .withCapacity n =>
    store.after (vecWithCapacity size n.toNat) fun rep store => store.bind rep
  | .literal bytes => store.after (stringConst size bytes) fun rep store => store.bind rep
  | .push v value => store.withVec v fun rep =>
    store.after (vecPush size rep value) fun rep store => (.unit, store.put v (some rep))
  | .pop v => store.withVec v fun rep =>
    store.after (vecPop size rep) fun popped store =>
      (.value popped.1, store.put v (some popped.2))
  | .reserve v additional => store.withVec v fun rep =>
    store.after (vecReserve size rep additional.toNat) fun rep store =>
      (.unit, store.put v (some rep))
  | .clear v => store.withVec v fun rep =>
    store.after (vecClear size ownership rep) fun rep store => (.unit, store.put v (some rep))
  | .indexRead v i => store.withVec v fun rep =>
    store.after (vecIndexRead size rep i.toNat) fun value store => (.value value, store)
  | .indexWrite v i value => store.withVec v fun rep =>
    store.after (vecIndexWrite size ownership rep i.toNat value) fun _ store => (.unit, store)
  | .terminatedPtr v s => store.withVec v fun rep =>
    store.after (vecTerminatedPtr size rep s) fun result store =>
      (.pointer result.1, store.put v (some result.2))
  | .clone v => store.withVec v fun rep =>
    store.after (vecClone size rep) fun rep store => store.bind rep
  | .concat v other => store.withVec v fun rep =>
    store.after (vecConcat size rep other) fun rep store => (store.put v none).bind rep
  | .extendFromSlice v other => store.withVec v fun rep =>
    store.after (vecExtendFromSlice size rep other) fun rep store =>
      (.unit, store.put v (some rep))
  | .eq v other => store.withVec v fun rep => store.withVec other fun otherRep =>
    store.after (vecEq size eq rep otherRep) fun result store => (.bool result, store)
  | .cmp v other => store.withVec v fun rep => store.withVec other fun otherRep =>
    store.after (vecCmp size lt rep otherRep) fun result store => (.ordering result, store)
  | .contains v needle => store.withVec v fun rep =>
    store.after (vecContains size eq rep needle) fun result store => (.bool result, store)
  | .startsWith v start => store.withVec v fun rep =>
    store.after (vecStartsWith size eq rep start) fun result store => (.bool result, store)
  | .endsWith v ending => store.withVec v fun rep =>
    store.after (vecEndsWith size eq rep ending) fun result store => (.bool result, store)
  | .drop v => store.withVec v fun rep =>
    store.after (vecDrop size ownership rep) fun _ store => (.unit, store.put v none)

def runOps (ops : List (Op V)) : List (OpResult V × VecStore V) × Option Stop :=
  Traces.trace (step size ownership eq lt) ops VecStore.empty

end Machine

end Gruel.PreludeVec
