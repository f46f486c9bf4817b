import Mathlib.Data.List.Basic

/-!
Total correctness of stateful computations that can stop: a run from a state
yields a result and a state in a given relation, with the rules for sequencing
and for counted loops that may leave early.
-/

namespace TotalRun

variable {σ ε α β : Type}

abbrev Action (σ ε α : Type) := StateT σ (Except ε) α

def Yields (action : Action σ ε α) (state : σ) (post : α → σ → Prop) : Prop :=
  ∃ result after, action state = .ok (result, after) ∧ post result after

/-- `while index < stop`, `count` rounds before the stop; a round may leave with a result. -/
def loopFrom (body : Nat → Action σ ε (Option β)) : Nat → Nat → Action σ ε (Option β)
  | 0, _ => pure none
  | count + 1, index => do
      match ← body index with
      | some result => pure (some result)
      | none => loopFrom body count (index + 1)

variable {state : σ} {stop : Nat}

theorem yields_pure {value : α} {post : α → σ → Prop} (holds : post value state) :
    Yields (pure value : Action σ ε α) state post :=
  ⟨value, state, rfl, holds⟩

theorem yields_bind {first : Action σ ε α} {next : α → Action σ ε β} {middle : α → σ → Prop}
    {post : β → σ → Prop} (before : Yields first state middle)
    (after : ∀ value state, middle value state → Yields (next value) state post) :
    Yields (first >>= next) state post := by
  obtain ⟨value, between, ran, holds⟩ := before
  obtain ⟨result, last, finished, reached⟩ := after value between holds
  refine ⟨result, last, ?_, reached⟩
  simp [bind, StateT.bind, ran, Except.bind, finished]

theorem yields_mono {action : Action σ ε α} {post weaker : α → σ → Prop} (yields : Yields action state post)
    (implies : ∀ value state, post value state → weaker value state) :
    Yields action state weaker := by
  obtain ⟨value, after, ran, holds⟩ := yields
  exact ⟨value, after, ran, implies value after holds⟩

theorem yields_loopFrom {body : Nat → Action σ ε (Option β)} {post : Option β → σ → Prop}
    (invariant : Nat → σ → Prop) (start : invariant 0 state)
    (round : ∀ index now, index < stop → invariant index now → Yields (body index) now fun left now =>
        match left with
        | none => invariant (index + 1) now
        | some result => post (some result) now)
    (finished : ∀ now, invariant stop now → post none now) :
    Yields (loopFrom body stop 0) state post := by
  have rounds : ∀ count index now, index + count = stop → invariant index now →
      Yields (loopFrom body count index) now post := by
    intro count
    induction count with
    | zero =>
      intro index now reached holds
      subst reached
      exact yields_pure (finished now holds)
    | succ count ih =>
      intro index now reached holds
      refine yields_bind (round index now (by omega) holds) ?_
      intro left later outcome
      cases left with
      | some result => exact yields_pure outcome
      | none => exact ih (index + 1) later (by omega) outcome
  exact rounds stop 0 state (Nat.zero_add stop) start

theorem findSome?_range {f : Nat → Option β} {index : Nat} {result : β} (inside : index < stop)
    (before : ∀ earlier, earlier < index → f earlier = none) (here : f index = some result) :
    (List.range stop).findSome? f = some result := by
  rw [List.findSome?_eq_some_iff]
  refine ⟨List.range index, index, List.range' (index + 1) (stop - index - 1), ?_, here, ?_⟩
  · obtain ⟨more, rfl⟩ : ∃ more, stop = index + (more + 1) := ⟨stop - index - 1, by omega⟩
    have left : index + (more + 1) - index - 1 = more := by omega
    rw [left, List.range_eq_range', List.range_eq_range', ← List.range'_append_1, Nat.zero_add, List.range'_succ]
  · intro earlier member
    exact before earlier (List.mem_range.mp member)

theorem yields_search {body : Nat → Action σ ε (Option β)} {f : Nat → Option β}
    (looks : ∀ index, index < stop → Yields (body index) state fun left now => left = f index ∧ now = state) :
    Yields (loopFrom body stop 0) state fun left now =>
      left = (List.range stop).findSome? f ∧ now = state := by
  let invariant : Nat → σ → Prop := fun index now =>
    now = state ∧ ∀ earlier, earlier < index → f earlier = none
  refine yields_loopFrom invariant ⟨rfl, fun _ early => absurd early (Nat.not_lt_zero _)⟩ ?_ ?_
  · rintro index _ inside ⟨rfl, before⟩
    refine yields_mono (looks index inside) ?_
    rintro left _ ⟨found, rfl⟩
    cases left with
    | none =>
      refine ⟨rfl, fun earlier early => ?_⟩
      rcases Nat.lt_succ_iff_lt_or_eq.mp early with older | rfl
      · exact before earlier older
      · exact found.symm
    | some result => exact ⟨(findSome?_range inside before found.symm).symm, rfl⟩
  · rintro now ⟨same, before⟩
    refine ⟨?_, same⟩
    rw [eq_comm, List.findSome?_eq_none_iff]
    intro index member
    exact before index (List.mem_range.mp member)

end TotalRun
