import Mathlib.Data.List.Forall2

/-!
Memoised recursion.  A body computes a value from the values of other keys; the memo
table is consulted before the body runs and extended after it.  `meaning` is what a
key's value is meant to be.  Against it the table is either faithful, and then a
memoised call and a call from an empty table return the same values, or it is not,
and then some call returns the wrong one.
-/

namespace MemoTable

variable {Key Value α β : Type}

abbrev Table (Key Value : Type) := List (Key × Value)

/-- A computation that reads and extends the table; `none` is a failure. -/
abbrev Call (Key Value α β : Type) := α → Table Key Value → Option (β × Table Key Value)

def each (call : Call Key Value α β) : Call Key Value (List α) (List β)
  | [], table => some ([], table)
  | first :: rest, table => do
      let (value, table) ← call first table
      let (values, table) ← each call rest table
      some (value :: values, table)

def through [BEq Key] (body : Call Key Value Key Value → Call Key Value Key Value) : Nat → Call Key Value Key Value
  | 0, _, _ => none
  | fuel + 1, key, table =>
    match table.lookup key with
    | some value => some (value, table)
    | none => do
        let (value, table) ← body (through body fuel) key table
        some (value, (key, value) :: table)

attribute [grind =] through

section Meaning

variable [BEq Key] (meaning : Key → Value → Prop)

def Faithful (table : Table Key Value) : Prop :=
  ∀ key value, table.lookup key = some value → meaning key value

def Sound (related : α → β → Prop) (call : Call Key Value α β) : Prop :=
  ∀ input table output after, Faithful meaning table → call input table = some (output, after) →
    related input output ∧ Faithful meaning after

/-- From every faithful table the call returns this output. -/
def Settles (call : Call Key Value α β) (input : α) (output : β) : Prop :=
  ∀ table, Faithful meaning table → ∃ after, call input table = some (output, after) ∧ Faithful meaning after

def Eventually (call : Nat → Call Key Value α β) (input : α) (output : β) : Prop :=
  ∃ enough, ∀ fuel ≥ enough, Settles meaning (call fuel) input output

variable {meaning}

theorem faithful_nil : Faithful meaning ([] : Table Key Value) := by
  intro _ _ found
  cases found

theorem Sound.each {related : α → β → Prop} {call : Call Key Value α β} (sound : Sound meaning related call) :
    Sound meaning (List.Forall₂ related) (each call) := by
  intro inputs
  induction inputs with
  | nil =>
    intro table outputs after faithful called
    cases called
    exact ⟨.nil, faithful⟩
  | cons first rest ih =>
    intro table outputs after faithful called
    obtain ⟨⟨value, middle⟩, firstCalled, called⟩ := Option.bind_eq_some_iff.mp called
    obtain ⟨⟨values, _⟩, restCalled, result⟩ := Option.bind_eq_some_iff.mp called
    cases result
    obtain ⟨firstRelated, faithful⟩ := sound first table value middle faithful firstCalled
    obtain ⟨restRelated, faithful⟩ := ih middle values after faithful restCalled
    exact ⟨.cons firstRelated restRelated, faithful⟩

theorem Settles.each {call : Call Key Value α β} {inputs : List α} {output : α → β}
    (settles : ∀ input ∈ inputs, Settles meaning call input (output input)) :
    Settles meaning (each call) inputs (inputs.map output) := by
  induction inputs with
  | nil =>
    intro table faithful
    exact ⟨table, rfl, faithful⟩
  | cons first rest ih =>
    intro table faithful
    obtain ⟨middle, firstCalled, faithful⟩ := settles first (List.mem_cons_self ..) table faithful
    obtain ⟨after, restCalled, faithful⟩ :=
      ih (fun input member => settles input (.tail _ member)) middle faithful
    refine ⟨after, ?_, faithful⟩
    simp [MemoTable.each, firstCalled, restCalled]

theorem Eventually.uniform {call : Nat → Call Key Value α β} {inputs : List α} {output : α → β}
    (eventually : ∀ input ∈ inputs, Eventually meaning call input (output input)) :
    ∃ enough, ∀ fuel ≥ enough, ∀ input ∈ inputs, Settles meaning (call fuel) input (output input) := by
  induction inputs with
  | nil => exact ⟨0, by simp⟩
  | cons first rest ih =>
    obtain ⟨firstEnough, firstSettles⟩ := eventually first (List.mem_cons_self ..)
    obtain ⟨restEnough, restSettles⟩ := ih fun input member => eventually input (.tail _ member)
    refine ⟨max firstEnough restEnough, fun fuel bound input member => ?_⟩
    rcases List.mem_cons.mp member with rfl | member
    · exact firstSettles fuel (Nat.le_trans (Nat.le_max_left _ _) bound)
    · exact restSettles fuel (Nat.le_trans (Nat.le_max_right _ _) bound) input member

end Meaning

section Through

variable [DecidableEq Key] {meaning : Key → Value → Prop} {body : Call Key Value Key Value → Call Key Value Key Value}

variable {table : Table Key Value} {key : Key} {value : Value}

theorem Faithful.cons (faithful : Faithful meaning table) (means : meaning key value) :
    Faithful meaning ((key, value) :: table) := by
  intro other found present
  rw [List.lookup_cons] at present
  split at present
  case h_1 same =>
      cases present
      rwa [eq_of_beq same]
  case h_2 => exact faithful other found present

theorem through_sound (bodySound : ∀ call, Sound meaning meaning call → Sound meaning meaning (body call))
    (fuel : Nat) : Sound meaning meaning (through body fuel) := by
  induction fuel with
  | zero =>
    intro key table value after faithful called
    cases called
  | succ fuel ih =>
    intro key table value after faithful called
    unfold through at called
    split at called
    case h_1 stored found =>
        cases called
        exact ⟨faithful key value found, faithful⟩
    case h_2 missed =>
        obtain ⟨⟨_, middle⟩, ran, result⟩ := Option.bind_eq_some_iff.mp called
        cases result
        obtain ⟨means, faithful⟩ := bodySound _ ih key table value middle faithful ran
        exact ⟨means, faithful.cons means⟩

theorem Eventually.through (means : meaning key value) (functional : ∀ {other}, meaning key other → other = value)
    (computes : Eventually meaning (fun fuel => body (through body fuel)) key value) :
    Eventually meaning (through body) key value := by
  obtain ⟨enough, computes⟩ := computes
  refine ⟨enough + 1, fun fuel bound table faithful => ?_⟩
  obtain ⟨fuel, rfl⟩ : ∃ less, fuel = less + 1 := ⟨fuel - 1, by omega⟩
  unfold MemoTable.through
  split
  case h_1 stored found =>
      rw [functional (faithful key stored found)]
      exact ⟨table, rfl, faithful⟩
  case h_2 missed =>
      obtain ⟨after, ran, faithful⟩ := computes fuel (by omega) table faithful
      refine ⟨(key, value) :: after, ?_, faithful.cons means⟩
      simp [ran]

def Returns (body : Call Key Value Key Value → Call Key Value Key Value)
    (table : Table Key Value) (key : Key) (value : Value) : Prop :=
  ∃ fuel after, through body fuel key table = some (value, after)

theorem Returns.of_lookup (found : table.lookup key = some value) : Returns body table key value :=
  ⟨1, table, by simp [through, found]⟩

variable (bodySound : ∀ call, Sound meaning meaning call → Sound meaning meaning (body call))
  (complete : ∀ {key value}, meaning key value → Eventually meaning (through body) key value)
include bodySound complete

theorem returns_iff (faithful : Faithful meaning table) : Returns body table key value ↔ meaning key value := by
  constructor
  · rintro ⟨fuel, after, called⟩
    exact (through_sound bodySound fuel key table value after faithful called).1
  · intro means
    obtain ⟨enough, settles⟩ := complete means
    obtain ⟨after, called, -⟩ := settles enough (Nat.le_refl _) table faithful
    exact ⟨enough, after, called⟩

theorem returns_as_from_nil_iff :
    (∀ key value, Returns body table key value ↔ Returns body [] key value) ↔ Faithful meaning table := by
  constructor
  · intro same key value found
    exact (returns_iff bodySound complete faithful_nil).mp ((same key value).mp (.of_lookup found))
  · intro faithful key value
    rw [returns_iff bodySound complete faithful, returns_iff bodySound complete faithful_nil]

end Through

end MemoTable
