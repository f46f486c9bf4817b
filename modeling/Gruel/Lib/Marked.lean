/-!
Computations that may fail and may be marked on the way.
-/

namespace Marked

/-- A run's result, and whether something on the way to it was marked. -/
structure Run (ε α : Type) where
  marked : Bool
  result : Except ε α

variable {ε α β γ δ : Type}

def Run.ofExcept (result : Except ε α) : Run ε α := ⟨false, result⟩

def Run.mark (value : α) : Run ε α := ⟨true, .ok value⟩

def Run.bind (run : Run ε α) (next : α → Run ε β) : Run ε β := match run.result with
  | .error err => ⟨run.marked, .error err⟩
  | .ok value => ⟨run.marked || (next value).marked, (next value).result⟩

instance : Monad (Run ε) where
  pure value := Run.ofExcept (.ok value)
  bind := Run.bind

/-- The plain computation fails where the marked one fails, and returns a related value
where that returns one; a marked run binds it to nothing. -/
def Follows (related : α → β → Prop) (run : Run ε α) (plain : Except ε β) : Prop :=
  run.marked = false → match run.result with
    | .error err => plain = .error err
    | .ok value => ∃ other, plain = .ok other ∧ related value other

variable {related : α → β → Prop} {relatedNext : γ → δ → Prop}

theorem follows_mark (value : α) (plain : Except ε β) : Follows related (Run.mark value) plain :=
  fun unmarked => nomatch unmarked

variable {run : Run ε α} {plain : Except ε β}

theorem follows_of_marked (isMarked : run.marked = true) : Follows related run plain := by
  intro unmarked
  rw [isMarked] at unmarked
  cases unmarked

theorem follows_ok {value : α} {other : β} (isRelated : related value other) :
    Follows related (Run.ofExcept (.ok value) : Run ε α) (.ok other) :=
  fun _ => ⟨other, rfl, isRelated⟩

theorem follows_error (err : ε) : Follows related (Run.ofExcept (.error err)) (.error err) := fun _ => rfl

theorem follows_bind {next : α → Run ε γ} {plainNext : β → Except ε δ} (follows : Follows related run plain)
    (followsNext : ∀ value other, related value other → Follows relatedNext (next value) (plainNext other)) :
    Follows relatedNext (run >>= next) (plain >>= plainNext) := by
  obtain ⟨marked, result⟩ := run
  cases result with
  | error err =>
    intro unmarked
    rw [follows unmarked]
    rfl
  | ok value =>
    intro unmarked
    have bothUnmarked : marked = false ∧ (next value).marked = false := by
      simpa [Bind.bind, Run.bind] using unmarked
    obtain ⟨other, ran, isRelated⟩ := follows bothUnmarked.1
    rw [ran]
    exact followsNext value other isRelated bothUnmarked.2

theorem follows_mono {relatedMore : α → β → Prop} (follows : Follows related run plain)
    (weaker : ∀ value other, related value other → relatedMore value other) :
    Follows relatedMore run plain := by
  intro unmarked
  have followed := follows unmarked
  generalize run.result = result at followed ⊢
  cases result with
  | error err => exact followed
  | ok value =>
    obtain ⟨other, ran, isRelated⟩ := followed
    exact ⟨other, ran, weaker value other isRelated⟩

theorem follows_shared {shared : Except ε α} {next : α → Run ε γ} {plainNext : α → Except ε δ}
    (followsNext : ∀ value, shared = .ok value → Follows relatedNext (next value) (plainNext value)) :
    Follows relatedNext (Run.ofExcept shared >>= next) (shared >>= plainNext) := by
  cases shared with
  | error err => exact fun _ => rfl
  | ok value => exact fun unmarked => followsNext value rfl unmarked

theorem follows_map (shared : Except ε α) (f : α → β) :
    Follows (fun value other => other = f value) (Run.ofExcept shared) (shared.map f) := by
  cases shared with
  | error err => exact fun _ => rfl
  | ok value => exact fun _ => ⟨f value, rfl, rfl⟩

theorem follows_maps (shared : Except ε γ) {f : γ → α} {g : γ → β}
    (isRelated : ∀ value, related (f value) (g value)) :
    Follows related (Run.ofExcept (shared.map f)) (shared.map g) := by
  cases shared with
  | error err => exact fun _ => rfl
  | ok value => exact fun _ => ⟨g value, rfl, isRelated value⟩

theorem follows_markIf {marks : Bool} {next : Unit → Run ε γ} {plain : Except ε δ}
    (followsNext : marks = false → Follows relatedNext (next ()) plain) :
    Follows relatedNext ((⟨marks, .ok ()⟩ : Run ε Unit) >>= next) plain := by
  intro unmarked
  have bothUnmarked : marks = false ∧ (next ()).marked = false := by
    simpa [Bind.bind, Run.bind] using unmarked
  exact followsNext bothUnmarked.1 bothUnmarked.2

theorem follows_finish {finish : α → γ} {relatedEnd : γ → β → Prop} (follows : Follows related run plain)
    (isRelated : ∀ value other, related value other → relatedEnd (finish value) other) :
    Follows relatedEnd (run >>= fun value => pure (finish value)) plain := by
  have finished : Follows relatedEnd (run >>= fun value => pure (finish value)) (plain >>= pure) :=
    follows_bind follows fun value other related => follows_ok (isRelated value other related)
  rwa [bind_pure] at finished

end Marked
