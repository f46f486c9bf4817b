import Mathlib.Tactic

/-!
A table with scopes. Each open scope keeps a log of what its insertions
displaced, and a scope that closes replays its log from the oldest entry. The
table is related to a history of what happened to it, in which a scope that has
closed counts for what it leaves behind.
-/

namespace UndoLog

variable {K V : Type*}

/-- The table; the logs of its open scopes are listed from the innermost, each from its oldest
entry. -/
structure Table (K V : Type*) where
  entries : K → Option V
  logs : List (List (K × Option V))

section Tables

variable [DecidableEq K]

namespace Table

def empty : Table K V := ⟨fun _ => none, []⟩

def set (table : Table K V) (key : K) (value : Option V) : Table K V :=
  { table with entries := Function.update table.entries key value }

def push (table : Table K V) : Table K V := { table with logs := [] :: table.logs }

def insert (table : Table K V) (key : K) (value : V) : Table K V where
  entries := Function.update table.entries key (some value)
  logs := match table.logs with
    | [] => []
    | log :: logs => (log ++ [(key, table.entries key)]) :: logs

def replay (entries : K → Option V) : List (K × Option V) → K → Option V
  | [] => entries
  | (key, old) :: log => replay (Function.update entries key old) log

def pop (table : Table K V) : Table K V := match table.logs with
  | [] => table
  | log :: logs => ⟨replay table.entries log, logs⟩

/-- Assignments that return what they displaced, for `putBack`. -/
def swapIn (table : Table K V) : List (K × V) → Table K V × List (K × Option V)
  | [] => (table, [])
  | (key, value) :: binders =>
    let (after, olds) := swapIn (table.set key (some value)) binders
    (after, (key, table.entries key) :: olds)

def putBack (table : Table K V) (olds : List (K × Option V)) : Table K V :=
  { table with entries := replay table.entries olds }

end Table

end Tables

inductive Event (K V : Type*)
  | bind (key : K) (value : V)
  | assign (key : K) (value : Option V)
  /-- A scope that opened and closed, with what happened in it, latest first. -/
  | closed (inner : List (Event K V))
  /-- Assignments that were put back after what happened in between, latest first. -/
  | borrowed (binders : List (K × V)) (inner : List (Event K V))

section History

variable [DecidableEq K] (key : K)

def bound : List (K × V) → Option (Option V)
  | [] => none
  | (name, value) :: binders =>
    (bound binders).or (if name = key then some (some value) else none)

def displaced : List (K × V) → Option (Option (Option V))
  | [] => none
  | (name, value) :: binders =>
    match displaced binders with
    | some old => some (old.or (if name = key then some (some value) else none))
    | none => if name = key then some none else none

mutual

def Event.leaves : Event K V → Option (Option V)
  | .bind name value => if name = key then some (some value) else none
  | .assign name value => if name = key then some value else none
  | .closed inner => (saved inner).getD (leaves inner)
  | .borrowed binders inner => (displaced key binders).getD (leaves inner)

def leaves : List (Event K V) → Option (Option V)
  | [] => none
  | event :: events => event.leaves.or (leaves events)

/-- What the last logged insertion of a history found in the table; inside, whether anything
before it had changed the entry. -/
def saved : List (Event K V) → Option (Option (Option V))
  | [] => none
  | event :: events =>
    match event with
    | .bind name _ => if name = key then some (leaves events) else saved events
    | .borrowed binders inner =>
      match saved inner with
      | some old => some ((old.or (bound key binders)).or (leaves events))
      | none => saved events
    | _ => saved events

end

def entry (events : List (Event K V)) : Option V := (leaves key events).join

end History

section HistoryLemmas

variable [DecidableEq K] {key : K}

attribute [grind =] saved Event.leaves leaves

theorem saved_assign (name : K) (value : Option V) (events : List (Event K V)) :
    saved key (.assign name value :: events) = saved key events := by
  simp [saved]

theorem saved_closed (inner events : List (Event K V)) : saved key (.closed inner :: events) = saved key events := by
  simp [saved]

theorem saved_borrowed (binders : List (K × V)) (inner events : List (Event K V)) :
    saved key (.borrowed binders inner :: events) = ((saved key inner).map fun old =>
        (old.or (bound key binders)).or (leaves key events)).or (saved key events) := by
  rw [saved]
  cases saved key inner <;> rfl

theorem leaves_append (events older : List (Event K V)) :
    leaves key (events ++ older) = (leaves key events).or (leaves key older) := by
  induction events with
  | nil => simp [leaves]
  | cons event events ih => rw [List.cons_append, leaves, leaves, ih, Option.or_assoc]

theorem saved_append (events older : List (Event K V)) : saved key (events ++ older) =
      ((saved key events).map fun old => old.or (leaves key older)).or (saved key older) := by
  induction events with
  | nil => simp [saved]
  | cons event events ih =>
    cases event with
    | bind name value =>
      by_cases same : name = key
      · simp [saved, same, leaves_append]
      · simp [saved, same, ih]
    | assign name value => simpa [saved] using ih
    | closed inner => simpa [saved] using ih
    | borrowed binders inner =>
      cases inside : saved key inner with
      | none => simp [saved, inside, ih]
      | some old => simp [saved, inside, leaves_append, Option.or_assoc]

theorem leaves_assigns (binders : List (K × V)) :
    leaves key (binders.reverse.map fun binder => Event.assign binder.1 (some binder.2)) = bound key binders := by
  induction binders with
  | nil => rfl
  | cons binder binders ih =>
    rw [List.reverse_cons, List.map_append, leaves_append, ih, bound]
    simp [leaves, Event.leaves]

theorem saved_assigns (binders : List (K × V)) :
    saved key (binders.map fun binder => Event.assign binder.1 (some binder.2)) = none := by
  induction binders with
  | nil => rfl
  | cons binder binders ih => simpa [saved] using ih

end HistoryLemmas

section Logs

variable [DecidableEq K]

def puts (key : K) : List (K × Option V) → Option (Option V)
  | [] => none
  | (name, old) :: log => (puts key log).or (if name = key then some old else none)

theorem puts_append (key : K) (log newer : List (K × Option V)) :
    puts key (log ++ newer) = (puts key newer).or (puts key log) := by
  induction log with
  | nil => simp [puts]
  | cons entry log ih => rw [List.cons_append, puts, puts, ih, Option.or_assoc]

theorem replay_apply (log : List (K × Option V)) (entries : K → Option V) (key : K) :
    Table.replay entries log key = (puts key log).getD (entries key) := by
  induction log generalizing entries with
  | nil => rfl
  | cons entry log ih =>
    rw [Table.replay, ih, puts]
    cases puts key log with
    | some old => rfl
    | none =>
      by_cases same : entry.1 = key
      · subst same
        simp
      · simp [same, Function.update_of_ne (Ne.symm same)]

def LogsMatch (base : K → Option V) : List (List (K × Option V)) → List (List (Event K V)) → Prop
  | [], [_] => True
  | log :: logs, frame :: frames =>
    (∀ key, puts key log = (saved key frame).map fun old =>
      (old.or (leaves key frames.flatten)).getD (base key)) ∧ LogsMatch base logs frames
  | _, _ => False

/-- The table is what a history made of one that held `base`. The history is that of the open
scopes, from the innermost. -/
structure Records (base : K → Option V) (table : Table K V) (frames : List (List (Event K V))) :
    Prop where
  entries : ∀ key, table.entries key = (leaves key frames.flatten).getD (base key)
  logs : LogsMatch base table.logs frames

theorem Records.entry {table : Table K V} {frames : List (List (Event K V))}
    (records : Records (fun _ => none) table frames) :
    table.entries = fun key => entry key frames.flatten := by
  funext key
  rw [records.entries, UndoLog.entry]
  cases leaves key frames.flatten <;> rfl

variable {base : K → Option V} {table : Table K V} {frame : List (Event K V)} {frames : List (List (Event K V))}

theorem update_entries {value : Option V} {name : K} {event : Event K V}
    (records : Records base table (frame :: frames))
    (made : ∀ key, event.leaves key = if name = key then some value else none) (key : K) :
    Function.update table.entries name value key =
      (leaves key ((event :: frame) :: frames).flatten).getD (base key) := by
  rw [List.flatten_cons, List.cons_append, leaves, made]
  by_cases same : name = key
  · subst same
    simp
  · rw [Function.update_of_ne (Ne.symm same), records.entries, if_neg same, Option.none_or, List.flatten_cons]

theorem LogsMatch.of_saved {logs : List (List (K × Option V))} {changed : List (Event K V)}
    (logsMatch : LogsMatch base logs (frame :: frames))
    (same : ∀ key, saved key changed = saved key frame) :
    LogsMatch base logs (changed :: frames) := by
  cases logs with
  | nil =>
    cases frames with
    | nil => trivial
    | cons => exact logsMatch.elim
  | cons log logs =>
    obtain ⟨first, rest⟩ := logsMatch
    exact ⟨fun key => by rw [first, same], rest⟩

theorem Records.set (records : Records base table (frame :: frames)) (key : K) (value : Option V) :
    Records base (table.set key value) ((.assign key value :: frame) :: frames) where
  entries := update_entries records fun _ => by rw [Event.leaves]
  logs := records.logs.of_saved fun _ => saved_assign ..

theorem Records.insert (records : Records base table (frame :: frames)) (key : K) (value : V) :
    Records base (table.insert key value) ((.bind key value :: frame) :: frames) where
  entries := update_entries records fun _ => by rw [Event.leaves]
  logs := by
    have logs := records.logs
    rw [Table.insert]
    cases log : table.logs with
    | nil =>
      rw [log] at logs
      cases frames with
      | nil => trivial
      | cons => exact logs.elim
    | cons log rest =>
      rw [log] at logs
      obtain ⟨first, rest⟩ := logs
      refine ⟨fun other => ?_, rest⟩
      rw [puts_append, puts, puts, Option.none_or, saved]
      by_cases same : key = other
      · subst same
        rw [if_pos rfl, if_pos rfl, records.entries, List.flatten_cons, leaves_append]
        rfl
      · rw [if_neg same, if_neg same, Option.none_or, first]

theorem Records.push (records : Records base table frames) (open_ : frames ≠ []) :
    Records base table.push ([] :: frames) where
  entries := by simpa [Table.push] using records.entries
  logs := by
    cases frames with
    | nil => exact absurd rfl open_
    | cons => exact ⟨fun _ => rfl, records.logs⟩

theorem Records.pop {outer : List (Event K V)} (records : Records base table (frame :: outer :: frames)) :
    Records base table.pop ((.closed frame :: outer) :: frames) := by
  obtain ⟨entries, logs⟩ := records
  obtain ⟨held, allLogs⟩ := table
  cases allLogs with
  | nil => exact logs.elim
  | cons log rest =>
    obtain ⟨first, below⟩ := logs
    refine ⟨fun key => ?_, below.of_saved fun _ => saved_closed ..⟩
    have now : held key = _ := entries key
    change Table.replay held log key = _
    rw [replay_apply, first, now]
    simp only [List.flatten_cons, List.cons_append, leaves, Event.leaves, leaves_append]
    cases saved key frame with
    | none => simp
    | some old => rfl

theorem Records.swapIn (records : Records base table (frame :: frames)) (binders : List (K × V)) :
    Records base (table.swapIn binders).1
      (((binders.reverse.map fun binder => .assign binder.1 (some binder.2)) ++ frame) :: frames) := by
  induction binders generalizing table frame with
  | nil => exact records
  | cons binder binders ih =>
    have rest := ih (records.set binder.1 (some binder.2))
    simpa [Table.swapIn] using rest

theorem puts_swapIn (table : Table K V) (binders : List (K × V)) (key : K) : puts key (table.swapIn binders).2 =
      (displaced key binders).map fun old => old.getD (table.entries key) := by
  induction binders generalizing table with
  | nil => rfl
  | cons binder binders ih =>
    rw [Table.swapIn, puts, ih, displaced]
    cases displaced key binders with
    | some old =>
      by_cases same : binder.1 = key
      · subst same
        cases old <;> simp [Table.set]
      · cases old <;> simp [Table.set, same, Function.update_of_ne (Ne.symm same)]
    | none =>
      by_cases same : binder.1 = key
      · subst same
        simp
      · simp [same]

theorem bound_none {key : K} {binders : List (K × V)} (none : displaced key binders = none) :
    bound key binders = Option.none := by
  induction binders with
  | nil => rfl
  | cons binder binders ih =>
    rw [displaced] at none
    cases rest : displaced key binders with
    | some old => rw [rest] at none; cases none
    | none =>
      rw [rest] at none
      by_cases same : binder.1 = key
      · simp [same] at none
      · simp [bound, ih rest, same]

theorem Records.putBack {after : Table K V} {inner : List (Event K V)} {binders : List (K × V)}
    (before : Records base table (frame :: frames))
    (records : Records base after
      ((inner ++ ((binders.reverse.map fun binder => .assign binder.1 (some binder.2)) ++ frame)) :: frames)) :
    Records base (after.putBack (table.swapIn binders).2) ((.borrowed binders inner :: frame) :: frames) where
  entries := by
    intro key
    change Table.replay after.entries (table.swapIn binders).2 key = _
    rw [replay_apply, puts_swapIn, records.entries, before.entries]
    simp only [List.flatten_cons, List.cons_append, leaves, Event.leaves, leaves_append, leaves_assigns]
    cases displacedBy : displaced key binders with
    | none => simp [bound_none displacedBy, Option.or_assoc]
    | some old => cases old <;> simp
  logs := by
    refine records.logs.of_saved fun key => ?_
    rw [saved_borrowed, saved_append, saved_append, leaves_append, leaves_assigns, saved_assigns]
    simp [Option.or_assoc]

namespace Table

def insertAll (table : Table K V) (inserts : List (K × V)) : Table K V :=
  inserts.foldl (fun table pair => table.insert pair.1 pair.2) table

end Table

def beforeLast (key : K) : List (K × V) → Option V
  | [] => none
  | (name, value) :: inserts =>
    (beforeLast key inserts).or (if name = key ∧ key ∈ inserts.map Prod.fst then some value else none)

def displacedBy (entries : K → Option V) : List (K × V) → List (K × Option V)
  | [] => []
  | (name, value) :: inserts =>
    (name, entries name) :: displacedBy (Function.update entries name (some value)) inserts

theorem insertAll_logs {log : List (K × Option V)} {logs : List (List (K × Option V))}
    (table : Table K V) (open_ : table.logs = log :: logs) (inserts : List (K × V)) :
    (table.insertAll inserts).logs = (log ++ displacedBy table.entries inserts) :: logs := by
  induction inserts generalizing table log with
  | nil => simpa [Table.insertAll, displacedBy] using open_
  | cons pair inserts ih =>
    have step : (table.insert pair.1 pair.2).logs = (log ++ [(pair.1, table.entries pair.1)]) :: logs := by
      simp [Table.insert, open_]
    have rest := ih (table.insert pair.1 pair.2) step
    rw [Table.insertAll, List.foldl_cons, ← Table.insertAll, rest]
    simp [displacedBy, Table.insert]

theorem insertAll_entries_of_not_mem (table : Table K V) {key : K} {inserts : List (K × V)}
    (absent : key ∉ inserts.map Prod.fst) :
    (table.insertAll inserts).entries key = table.entries key := by
  induction inserts generalizing table with
  | nil => rfl
  | cons pair inserts ih =>
    rw [List.map_cons, List.mem_cons, not_or] at absent
    rw [Table.insertAll, List.foldl_cons, ← Table.insertAll, ih _ absent.2]
    simp [Table.insert, Function.update_of_ne absent.1]

theorem beforeLast_of_not_mem {key : K} {inserts : List (K × V)}
    (absent : key ∉ inserts.map Prod.fst) : beforeLast key inserts = none := by
  induction inserts with
  | nil => rfl
  | cons pair inserts ih =>
    rw [List.map_cons, List.mem_cons, not_or] at absent
    simp [beforeLast, ih absent.2, Ne.symm absent.1]

theorem puts_displacedBy (entries : K → Option V) (key : K) (inserts : List (K × V)) :
    puts key (displacedBy entries inserts) =
      if key ∈ inserts.map Prod.fst then some ((beforeLast key inserts).or (entries key))
      else none := by
  induction inserts generalizing entries with
  | nil => rfl
  | cons pair inserts ih =>
    obtain ⟨name, _⟩ := pair
    rw [displacedBy, puts, ih, beforeLast]
    by_cases later : key ∈ inserts.map Prod.fst
    · by_cases same : name = key
      · subst same
        simp [later]
      · simp [later, same, Function.update_of_ne (Ne.symm same)]
    · by_cases same : name = key
      · subst same
        simp [later, beforeLast_of_not_mem later]
      · have differs : key ≠ name := Ne.symm same
        simp [later, same, differs]

theorem pop_insertAll (table : Table K V) (inserts : List (K × V)) : (table.push.insertAll inserts).pop =
      ⟨fun key => (beforeLast key inserts).or (table.entries key), table.logs⟩ := by
  have opened : table.push.logs = [] :: table.logs := rfl
  have logs := insertAll_logs table.push opened inserts
  rw [Table.pop, logs]
  simp only [List.nil_append, Table.mk.injEq, and_true]
  funext key
  rw [replay_apply, puts_displacedBy]
  by_cases inserted : key ∈ inserts.map Prod.fst
  · rw [if_pos inserted]
    rfl
  · rw [if_neg inserted, beforeLast_of_not_mem inserted]
    exact insertAll_entries_of_not_mem table.push inserted

theorem pop_insertAll_eq_iff (table : Table K V) (inserts : List (K × V)) :
    (table.push.insertAll inserts).pop = table ↔
      ∀ key value, beforeLast key inserts = some value → table.entries key = some value := by
  rw [pop_insertAll]
  constructor
  · intro restored key value last
    rw [← restored]
    simp [last]
  · intro kept
    obtain ⟨entries, _⟩ := table
    simp only [Table.mk.injEq, and_true]
    funext key
    cases last : beforeLast key inserts with
    | none => rfl
    | some value => exact (kept key value last).symm

end Logs

end UndoLog
