/-!
Computations that read files on the way.
-/

namespace Reading

inductive Program (Path Content α : Type)
  | done (value : α)
  | read (path : Path) (next : Option Content → Program Path Content α)

variable {Path Content α β : Type}

namespace Program

def bind : Program Path Content α → (α → Program Path Content β) → Program Path Content β
  | .done value, next => next value
  | .read path rest, next => .read path fun content => (rest content).bind next

instance : Monad (Program Path Content) where
  pure := .done
  bind := Program.bind

def run (files : Path → Option Content) : Program Path Content α → α
  | .done value => value
  | .read path next => (next (files path)).run files

def reads (files : Path → Option Content) : Program Path Content α → List Path
  | .done _ => []
  | .read path next => path :: (next (files path)).reads files

@[simp] theorem run_pure (files : Path → Option Content) (value : α) :
    (pure value : Program Path Content α).run files = value := rfl

@[simp] theorem run_bind (files : Path → Option Content) (program : Program Path Content α)
    (next : α → Program Path Content β) :
    (program >>= next).run files = (next (program.run files)).run files := by
  induction program with
  | done value => rfl
  | read path rest ih => exact ih (files path)

theorem run_congr {files others : Path → Option Content} {program : Program Path Content α}
    (same : ∀ path ∈ program.reads files, files path = others path) :
    program.run files = program.run others := by
  induction program with
  | done value => rfl
  | read path next ih =>
    have samePath := same path (.head _)
    simp only [run, ← samePath]
    exact ih (files path) fun other member => same other (.tail _ member)

end Program

end Reading
