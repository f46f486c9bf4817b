/-!
Fuelled computations: a run settles on a result when every large enough
supply of fuel returns that result.
-/

namespace Fuel

variable {α β : Type}

def Settles (run : Nat → Option α) (result : α) : Prop :=
  ∃ bound, ∀ fuel, bound ≤ fuel → run fuel = some result

variable {run : Nat → Option α}

theorem settles_unique {first second : α} (settlesFirst : Settles run first)
    (settlesSecond : Settles run second) : first = second := by
  obtain ⟨firstBound, firstRuns⟩ := settlesFirst
  obtain ⟨secondBound, secondRuns⟩ := settlesSecond
  have atFirst := firstRuns (max firstBound secondBound) (Nat.le_max_left _ _)
  have atSecond := secondRuns (max firstBound secondBound) (Nat.le_max_right _ _)
  rw [atFirst] at atSecond
  exact Option.some.inj atSecond

theorem settles_some (result : α) : Settles (fun _ => some result) result := ⟨0, fun _ _ => rfl⟩

theorem settles_of_succ {result : α} (settles : Settles (fun fuel => run (fuel + 1)) result) :
    Settles run result := by
  obtain ⟨bound, runs⟩ := settles
  refine ⟨bound + 1, fun fuel enough => ?_⟩
  obtain ⟨rest, rfl⟩ : ∃ rest, fuel = rest + 1 := ⟨fuel - 1, by omega⟩
  exact runs rest (by omega)

theorem settles_pred {result : α} (settles : Settles run result) : Settles (fun fuel => run (fuel + 1)) result := by
  obtain ⟨bound, runs⟩ := settles
  exact ⟨bound, fun fuel enough => runs (fuel + 1) (by omega)⟩

theorem settles_of_add {result : α} (bound : Nat)
    (runs : ∀ rest, run (rest + bound) = some result) : Settles run result := by
  refine ⟨bound, fun fuel enough => ?_⟩
  have split : fuel - bound + bound = fuel := by omega
  rw [← split]
  exact runs _

theorem settles_bind {next : Nat → α → Option β} {middle : α} {result : β}
    (settles : Settles run middle) (settlesNext : Settles (fun fuel => next fuel middle) result) :
    Settles (fun fuel => (run fuel).bind (next fuel)) result := by
  obtain ⟨bound, runs⟩ := settles
  obtain ⟨nextBound, nextRuns⟩ := settlesNext
  refine ⟨max bound nextBound, fun fuel enough => ?_⟩
  have ran := runs fuel (by omega)
  have nextRan := nextRuns fuel (by omega)
  simp only [ran, Option.bind_some]
  exact nextRan

end Fuel
