import Mathlib.Tactic
import Gruel.DocumentCore

/-!
Incremental synchronization follows the client's buffer: the line map finds
every line, a position on a character boundary is converted to its own byte
offset, and a change that points inside a character is the only one that panics.
-/

namespace Gruel.Lsp

open CharText

variable {char : Char} {text : Text}

def newlines (text : Text) : Nat := text.count '\n'

@[simp] theorem newlines_nil : newlines [] = 0 := rfl

@[simp] theorem newlines_append (left right : Text) : newlines (left ++ right) = newlines left + newlines right := by
  simp [newlines]

@[simp] theorem newlines_newline (text : Text) : newlines ('\n' :: text) = newlines text + 1 := by
  simp [newlines]

theorem newlines_cons (plain : char ≠ '\n') (text : Text) : newlines (char :: text) = newlines text := by
  simp [newlines, plain]

theorem newlines_of_not_mem (plain : '\n' ∉ text) : newlines text = 0 :=
  List.count_eq_zero.mpr plain

theorem newlines_le_byteLength (text : Text) : newlines text ≤ byteLength text :=
  Nat.le_trans List.count_le_length (length_le_byteLength text)

theorem utf8EncodeChar_newline : String.utf8EncodeChar '\n' = [newline] := by decide

theorem newline_not_mem_utf8EncodeChar (plain : char ≠ '\n') : newline ∉ String.utf8EncodeChar char := by
  intro member
  have same : char.toNat = 10 := toNat_of_mem_utf8EncodeChar (by decide) member
  exact plain (Char.ext (UInt32.toNat.inj same))

theorem lineStartsFrom_append (offset : Nat) (left right : List UInt8) : lineStartsFrom offset (left ++ right) =
      lineStartsFrom offset left ++ lineStartsFrom (offset + left.length) right := by
  induction left generalizing offset with
  | nil => simp [lineStartsFrom]
  | cons byte left ih =>
    have moved : offset + (left.length + 1) = offset + 1 + left.length := by omega
    simp only [List.cons_append, lineStartsFrom, ih, List.length_cons, moved]
    split <;> simp

theorem lineStartsFrom_plain {text : List UInt8} (plain : newline ∉ text) (offset : Nat) :
    lineStartsFrom offset text = [] := by
  induction text generalizing offset with
  | nil => rfl
  | cons byte text ih =>
    simp only [List.mem_cons, not_or] at plain
    simp only [lineStartsFrom, if_neg (Ne.symm plain.1)]
    exact ih plain.2 _

theorem lineStartsFrom_newline (offset : Nat) (text : Text) : lineStartsFrom offset (bytes ('\n' :: text)) =
      UInt32.ofNat (offset + 1) :: lineStartsFrom (offset + 1) (bytes text) := by
  simp [utf8EncodeChar_newline, lineStartsFrom]

theorem lineStartsFrom_char (offset : Nat) (plain : char ≠ '\n') (text : Text) :
    lineStartsFrom offset (bytes (char :: text)) = lineStartsFrom (offset + char.utf8Size) (bytes text) := by
  simp [lineStartsFrom_append, lineStartsFrom_plain (newline_not_mem_utf8EncodeChar plain)]

theorem length_lineStartsFrom (offset : Nat) (text : Text) :
    (lineStartsFrom offset (bytes text)).length = newlines text := by
  induction text generalizing offset with
  | nil => rfl
  | cons char text ih =>
    by_cases ends : char = '\n'
    · subst char
      rw [lineStartsFrom_newline, List.length_cons, ih, newlines_newline]
    · rw [lineStartsFrom_char _ ends, ih, newlines_cons ends]

def Opens (before : Text) : Prop := before = [] ∨ ∃ front, before = front ++ ['\n']

def Closes (rest : Text) : Prop := rest = [] ∨ ∃ more, rest = '\n' :: more

structure LineAt (text : Text) (index : Nat) (before line rest : Text) : Prop where
  split : text = before ++ line ++ rest
  index_eq : newlines before = index
  opens : Opens before
  plain : '\n' ∉ line
  closes : Closes rest

theorem exists_closes (text : Text) : ∃ line rest, text = line ++ rest ∧ '\n' ∉ line ∧ Closes rest := by
  induction text with
  | nil => exact ⟨[], [], rfl, by simp, .inl rfl⟩
  | cons char text ih =>
    by_cases ends : char = '\n'
    · exact ⟨[], char :: text, rfl, by simp, .inr ⟨text, by rw [ends]⟩⟩
    · obtain ⟨line, rest, joined, plain, closes⟩ := ih
      refine ⟨char :: line, rest, by simp [joined], ?_, closes⟩
      simp only [List.mem_cons, not_or]
      exact ⟨Ne.symm ends, plain⟩

theorem exists_opens (text : Text) : ∃ before line, text = before ++ line ∧ Opens before ∧ '\n' ∉ line := by
  induction text using List.reverseRecOn with
  | nil => exact ⟨[], [], rfl, .inl rfl, by simp⟩
  | append_singleton text char ih =>
    by_cases ends : char = '\n'
    · exact ⟨text ++ [char], [], by simp, .inr ⟨text, by rw [ends]⟩, by simp⟩
    · obtain ⟨before, line, joined, opens, plain⟩ := ih
      refine ⟨before, line ++ [char], by simp [joined], opens, ?_⟩
      simp only [List.mem_append, List.mem_singleton, not_or]
      exact ⟨plain, Ne.symm ends⟩

theorem exists_lineAt_boundary (left right : Text) :
    ∃ before front back rest, left = before ++ front ∧ right = back ++ rest ∧ '\n' ∉ front ∧
      LineAt (left ++ right) (newlines left) before (front ++ back) rest := by
  obtain ⟨before, front, rfl, opens, plainFront⟩ := exists_opens left
  obtain ⟨back, rest, rfl, plainBack, closes⟩ := exists_closes right
  refine ⟨before, front, back, rest, rfl, rfl, plainFront, ⟨by simp, ?_, opens, ?_, closes⟩⟩
  · rw [newlines_append, newlines_of_not_mem plainFront, Nat.add_zero]
  · simp only [List.mem_append, not_or]
    exact ⟨plainFront, plainBack⟩

theorem exists_lineAt {index : Nat} (here : index ≤ newlines text) :
    ∃ before line rest, LineAt text index before line rest := by
  -- A boundary with that many newlines before it exists; its line is the one.
  have cut : ∃ left right, text = left ++ right ∧ newlines left = index := by
    induction text generalizing index with
    | nil => exact ⟨[], [], rfl, by simp at here ⊢; omega⟩
    | cons char text ih =>
      by_cases first : index = 0
      · exact ⟨[], char :: text, rfl, by simp [first]⟩
      by_cases ends : char = '\n'
      · subst char
        rw [newlines_newline] at here
        have fewer : index - 1 ≤ newlines text := by omega
        obtain ⟨left, right, rfl, count⟩ := ih fewer
        refine ⟨'\n' :: left, right, rfl, ?_⟩
        rw [newlines_newline]
        omega
      · rw [newlines_cons ends] at here
        obtain ⟨left, right, rfl, count⟩ := ih here
        exact ⟨char :: left, right, rfl, by rw [newlines_cons ends, count]⟩
  obtain ⟨left, right, rfl, rfl⟩ := cut
  obtain ⟨before, front, back, rest, _, _, _, line⟩ := exists_lineAt_boundary left right
  exact ⟨before, front ++ back, rest, line⟩

/-- The text's length and its number of lines are below `2 ^ 32`. -/
def Fits (text : Text) : Prop := byteLength text < 2 ^ 32 ∧ newlines text + 1 < 2 ^ 32

theorem toNat_offset (fits : Fits text) {offset : Nat} (within : offset ≤ byteLength text) :
    (UInt32.ofNat offset).toNat = offset := by
  have bound := fits.1
  rw [UInt32.toNat_ofNat', Nat.mod_eq_of_lt (by omega)]

theorem length_lineStarts (text : Text) : (LineMap.new text).lineStarts.length = newlines text + 1 := by
  simp [LineMap.new, length_lineStartsFrom]

theorem lineStarts_opens {before : Text} (opens : Opens before) (more : Text) :
    (LineMap.new (before ++ more)).lineStarts[newlines before]? = some (UInt32.ofNat (byteLength before)) := by
  rcases opens with rfl | ⟨front, rfl⟩
  · rfl
  · have split : lineStartsFrom 0 (bytes (front ++ ['\n'] ++ more)) =
        lineStartsFrom 0 (bytes front) ++ (UInt32.ofNat (byteLength front + 1) ::
            lineStartsFrom (byteLength front + 1) (bytes more)) := by
      rw [List.append_assoc, bytes_append, lineStartsFrom_append, List.singleton_append,
        lineStartsFrom_newline, Nat.zero_add, length_bytes]
    have size : byteLength (front ++ ['\n']) = byteLength front + 1 := by
      rw [byteLength_append]
      rfl
    have count : newlines (front ++ ['\n']) = newlines front + 1 := by
      rw [newlines_append]
      rfl
    rw [size, count]
    simp only [LineMap.new, split, List.getElem?_cons_succ]
    simp [length_lineStartsFrom]

namespace LineAt

variable {text before line rest : Text} {index : Nat}
variable {number : UInt32}

theorem byteLength_eq (located : LineAt text index before line rest) :
    byteLength text = byteLength before + byteLength line + byteLength rest := by
  rw [located.split, byteLength_append, byteLength_append]

theorem newlines_eq (located : LineAt text index before line rest) : newlines text = index + newlines rest := by
  rw [located.split, newlines_append, newlines_append, newlines_of_not_mem located.plain, located.index_eq,
    Nat.add_zero]

theorem lineStart_eq (located : LineAt text number.toNat before line rest) :
    (LineMap.new text).lineStart number = UInt32.ofNat (byteLength before) := by
  have found := lineStarts_opens located.opens (line ++ rest)
  rw [located.index_eq, ← List.append_assoc, ← located.split] at found
  rw [LineMap.lineStart, found, Option.getD_some]

theorem saturatingSucc_eq (fits : Fits text) (located : LineAt text number.toNat before line rest) :
    LineMap.saturatingSucc number = number.toNat + 1 := by
  have bound := fits.2
  have count := located.newlines_eq
  simp only [LineMap.saturatingSucc]
  omega

theorem lineEnd_eq (fits : Fits text) (located : LineAt text number.toNat before line rest) :
    (LineMap.new text).lineEnd text number = UInt32.ofNat (byteLength before + byteLength line) := by
  simp only [LineMap.lineEnd, located.saturatingSucc_eq fits]
  rcases located.closes with closed | ⟨more, closed⟩
  · have past : (LineMap.new text).lineStarts.length ≤ number.toNat + 1 := by
      rw [length_lineStarts, located.newlines_eq, closed, newlines_nil]
    rw [List.getElem?_eq_none past]
    simp [LineMap.new, located.byteLength_eq, closed, byteLength_nil]
  · have opened : Opens (before ++ line ++ ['\n']) := .inr ⟨before ++ line, rfl⟩
    have joined : text = before ++ line ++ ['\n'] ++ more := by
      rw [located.split, closed]
      simp
    have count : newlines (before ++ line ++ ['\n']) = number.toNat + 1 := by
      rw [newlines_append, newlines_append, newlines_of_not_mem located.plain, located.index_eq]
      rfl
    have size : byteLength (before ++ line ++ ['\n']) = byteLength before + byteLength line + 1 := by
      rw [byteLength_append, byteLength_append]
      rfl
    have found := lineStarts_opens opened more
    rw [count, size, ← joined] at found
    have within : byteLength before + byteLength line + 1 ≤ byteLength text := by
      rw [joined, byteLength_append, size]
      omega
    have next := toNat_offset fits within
    have here : UInt32.ofNat (byteLength before + byteLength line + 1) - 1 =
        UInt32.ofNat (byteLength before + byteLength line) := by
      rw [UInt32.ofNat_add]
      exact UInt32.add_sub_cancel _ _
    have positive : 0 < UInt32.ofNat (byteLength before + byteLength line + 1) := by
      rw [UInt32.lt_iff_toNat_lt, next]
      exact Nat.succ_pos _
    have byte : (bytes text)[byteLength before + byteLength line]? = some newline := by
      rw [joined, bytes_append, bytes_append, bytes_append, List.append_assoc,
        List.getElem?_append_right (by simp [length_bytes])]
      simp only [List.length_append, length_bytes, Nat.sub_self, bytes_cons, bytes_nil, utf8EncodeChar_newline]
      rfl
    simp only [found, here]
    rw [toNat_offset fits (by omega), if_pos ⟨positive, byte⟩]

theorem positionToByte_eq {pos : Position} (fits : Fits text)
    (located : LineAt text pos.line.toNat before line rest) (encoding : PositionEncoding) :
    positionToByte (LineMap.new text) text pos encoding =
      some (UInt32.ofNat (byteLength before + columnBytes encoding line pos.character)) := by
  have size := located.byteLength_eq
  have cut : slice text (byteLength before) (byteLength before + byteLength line) = some line := by
    rw [located.split]
    exact slice_middle before line rest
  simp only [positionToByte, located.lineStart_eq, located.lineEnd_eq fits]
  rw [toNat_offset fits (by omega), toNat_offset fits (by omega), cut]
  rfl

end LineAt

variable {after : Text} {breaks : LineBreaks}
variable {before text : Text} {encoding : PositionEncoding} {pos : Position} {character : UInt32} {doc : DocState}

theorem columnBytes_le (encoding : PositionEncoding) (line : Text) (character : UInt32) :
    columnBytes encoding line character ≤ byteLength line := by
  cases encoding <;> exact Nat.min_le_right _ _

theorem columnBytes_nil (encoding : PositionEncoding) (character : UInt32) :
    columnBytes encoding [] character = 0 := Nat.le_zero.mp (columnBytes_le encoding [] character)

theorem positionToByte_past (fits : Fits text) (past : newlines text < pos.line.toNat) (encoding : PositionEncoding) :
    positionToByte (LineMap.new text) text pos encoding = some (UInt32.ofNat (byteLength text)) := by
  have bound := fits.2
  have start : (LineMap.new text).lineStart pos.line = UInt32.ofNat (byteLength text) := by
    rw [LineMap.lineStart, List.getElem?_eq_none (by rw [length_lineStarts]; omega)]
    rfl
  have stop : (LineMap.new text).lineEnd text pos.line = UInt32.ofNat (byteLength text) := by
    have next : (LineMap.new text).lineStarts.length ≤ LineMap.saturatingSucc pos.line := by
      simp only [length_lineStarts, LineMap.saturatingSucc]
      omega
    simp only [LineMap.lineEnd, List.getElem?_eq_none next]
    rfl
  have cut : slice text (byteLength text) (byteLength text) = some [] := by
    simpa using slice_middle text [] []
  simp only [positionToByte, start, stop]
  rw [toNat_offset fits (Nat.le_refl _), cut]
  simp [columnBytes_nil]

def units (encoding : PositionEncoding) (char : Char) : Nat := match encoding with
  | .utf8 => char.utf8Size
  | .utf16 => (lenUtf16 char).toNat

def width (encoding : PositionEncoding) (text : Text) : Nat := (text.map (units encoding)).sum

@[simp] theorem width_nil (encoding : PositionEncoding) : width encoding [] = 0 := rfl

@[simp] theorem width_cons (encoding : PositionEncoding) (char : Char) (text : Text) :
    width encoding (char :: text) = units encoding char + width encoding text := by
  simp [width]

theorem width_utf8 (text : Text) : width .utf8 text = byteLength text := by
  induction text with
  | nil => rfl
  | cons char text ih => rw [width_cons, byteLength_cons, ih, units]

theorem lenUtf16_cases (char : Char) : (lenUtf16 char).toNat = 1 ∨ (lenUtf16 char).toNat = 2 := by
  simp only [lenUtf16]
  split
  · exact .inl rfl
  · exact .inr rfl

theorem utf16ColumnBytes_boundary (front back : Text) (count : UInt32)
    (reached : count.toNat + width .utf16 front = character.toNat) (offset : Nat) :
    utf16ColumnBytes character (front ++ back) count offset = offset + byteLength front := by
  induction front generalizing count offset with
  | nil =>
    have enough : count ≥ character := by
      rw [ge_iff_le, UInt32.le_iff_toNat_le]
      simp only [width_nil] at reached
      omega
    cases back with
    | nil => rfl
    | cons char back => simp [utf16ColumnBytes, enough]
  | cons char front ih =>
    have bound := character.toNat_lt
    have some_units := lenUtf16_cases char
    simp only [width_cons, units] at reached
    have before : ¬ count ≥ character := by
      rw [ge_iff_le, UInt32.le_iff_toNat_le]
      omega
    have next : (count + lenUtf16 char).toNat = count.toNat + (lenUtf16 char).toNat := by
      rw [UInt32.toNat_add, Nat.mod_eq_of_lt (by omega)]
    simp only [List.cons_append, utf16ColumnBytes, if_neg before, byteLength_cons]
    rw [ih _ (by omega)]
    omega

theorem exists_utf16ColumnBytes (character : UInt32) (line : Text) (count : UInt32) (offset : Nat) :
    ∃ front back, line = front ++ back ∧
      utf16ColumnBytes character line count offset = offset + byteLength front := by
  induction line generalizing count offset with
  | nil => exact ⟨[], [], rfl, rfl⟩
  | cons char line ih =>
    by_cases enough : count ≥ character
    · exact ⟨[], char :: line, rfl, by simp [utf16ColumnBytes, enough]⟩
    · obtain ⟨front, back, rfl, reached⟩ :=
        ih (count + lenUtf16 char) (offset + char.utf8Size)
      refine ⟨char :: front, back, rfl, ?_⟩
      simp only [utf16ColumnBytes, if_neg enough, reached, byteLength_cons]
      omega

theorem columnBytes_boundary (encoding : PositionEncoding) (front back : Text)
    (reached : character.toNat = width encoding front) :
    columnBytes encoding (front ++ back) character = byteLength front := by
  have inside : byteLength front ≤ byteLength (front ++ back) := by
    rw [byteLength_append]
    exact Nat.le_add_right _ _
  cases encoding with
  | utf8 =>
    rw [width_utf8] at reached
    simp only [columnBytes, reached]
    exact Nat.min_eq_left inside
  | utf16 =>
    have passed := utf16ColumnBytes_boundary front back 0 (by simpa using reached.symm) 0
    simp only [columnBytes, passed, Nat.zero_add]
    exact Nat.min_eq_left inside

inductive LineBreaks
  | lf
  | lsp
  deriving DecidableEq, Repr

def LineBreaks.endsLine (breaks : LineBreaks) (char : Char) (following : Text) : Bool :=
  match breaks with
  | .lf => decide (char = '\n')
  | .lsp => decide (char = '\n') || (decide (char = '\r') && decide (following.head? ≠ some '\n'))

def clientPosition (breaks : LineBreaks) (encoding : PositionEncoding) : Text → Text → Nat × Nat → Nat × Nat
  | [], _, reached => reached
  | char :: before, after, (line, column) =>
    if breaks.endsLine char (before ++ after) then
      clientPosition breaks encoding before after (line + 1, 0)
    else clientPosition breaks encoding before after (line, column + units encoding char)

attribute [grind =] clientPosition

structure AtBoundary (breaks : LineBreaks) (encoding : PositionEncoding) (before after : Text)
    (pos : Position) : Prop where
  counted : clientPosition breaks encoding before after (0, 0) = (pos.line.toNat, pos.character.toNat)
  whole : breaks = .lsp → before.getLast? = some '\r' → after.head? ≠ some '\n'

theorem clientPosition_plain (encoding : PositionEncoding) {front : Text} (plain : '\n' ∉ front)
    (after : Text) (line column : Nat) :
    clientPosition .lf encoding front after (line, column) = (line, column + width encoding front) := by
  induction front generalizing column with
  | nil => rfl
  | cons char front ih =>
    simp only [List.mem_cons, not_or] at plain
    simp [clientPosition, LineBreaks.endsLine, decide_eq_true_eq, if_neg (Ne.symm plain.1),
      ih plain.2, width_cons, Nat.add_assoc]

theorem clientPosition_append (breaks : LineBreaks) (encoding : PositionEncoding)
    (before front after : Text) (reached : Nat × Nat) :
    clientPosition breaks encoding (before ++ front) after reached = clientPosition breaks encoding front after
        (clientPosition breaks encoding before (front ++ after) reached) := by
  induction before generalizing reached with
  | nil => rfl
  | cons char before ih =>
    simp only [List.cons_append, clientPosition, List.append_assoc]
    split <;> exact ih _

theorem clientPosition_line (encoding : PositionEncoding) (before after : Text) (line column : Nat) :
    (clientPosition .lf encoding before after (line, column)).1 = line + newlines before := by
  induction before generalizing line column with
  | nil => rfl
  | cons char before ih =>
    simp only [clientPosition, LineBreaks.endsLine, decide_eq_true_eq]
    by_cases ends : char = '\n'
    · subst char
      rw [if_pos rfl, ih, newlines_newline]
      omega
    · rw [if_neg ends, ih, newlines_cons ends]

theorem clientPosition_opens (encoding : PositionEncoding) (opens : Opens before) (after : Text) :
    clientPosition .lf encoding before after (0, 0) = (newlines before, 0) := by
  rcases opens with rfl | ⟨front, rfl⟩
  · rfl
  · have line := clientPosition_line encoding front (['\n'] ++ after) 0 0
    rw [clientPosition_append]
    simp only [clientPosition, LineBreaks.endsLine, decide_true, if_true, line, newlines_append,
      newlines_newline, newlines_nil]
    congr 1
    omega

theorem positionToByte_boundary (fits : Fits (before ++ after))
    (boundary : AtBoundary .lf encoding before after pos) :
    positionToByte (LineMap.new (before ++ after)) (before ++ after) pos encoding =
      some (UInt32.ofNat (byteLength before)) := by
  obtain ⟨opening, front, back, _, rfl, rfl, plain, line⟩ := exists_lineAt_boundary before after
  have opens := line.opens
  have counted := boundary.counted
  rw [clientPosition_append, clientPosition_opens encoding opens,
    clientPosition_plain encoding plain, Nat.zero_add] at counted
  have place := Prod.mk.inj counted
  have index : newlines (opening ++ front) = pos.line.toNat := by
    rw [newlines_append, newlines_of_not_mem plain, Nat.add_zero, place.1]
  rw [index] at line
  rw [line.positionToByte_eq fits encoding, columnBytes_boundary encoding front back place.2.symm, byteLength_append]

def NoLoneReturn (text : Text) : Prop :=
  ∀ left right, text = left ++ '\r' :: right → right.head? = some '\n'

theorem NoLoneReturn.tail {char : Char} (none : NoLoneReturn (char :: text)) : NoLoneReturn text := by
  intro left right split
  exact none (char :: left) right (by rw [split, List.cons_append])

theorem clientPosition_lsp (encoding : PositionEncoding) (none : NoLoneReturn (before ++ after))
    (reached : Nat × Nat) :
    clientPosition .lsp encoding before after reached = clientPosition .lf encoding before after reached := by
  induction before generalizing reached with
  | nil => rfl
  | cons char before ih =>
    have same : LineBreaks.endsLine .lsp char (before ++ after) = LineBreaks.endsLine .lf char (before ++ after) := by
      by_cases carriage : char = '\r'
      · subst char
        have next := none [] (before ++ after) rfl
        simp [LineBreaks.endsLine, next]
      · simp [LineBreaks.endsLine, carriage]
    simp [clientPosition, same, ih none.tail]

theorem AtBoundary.toLf (boundary : AtBoundary breaks encoding before after pos)
    (none : breaks = .lsp → NoLoneReturn (before ++ after)) :
    AtBoundary .lf encoding before after pos := by
  refine ⟨?_, by simp⟩
  cases breaks with
  | lf => exact boundary.counted
  | lsp =>
    rw [← clientPosition_lsp encoding (none rfl)]
    exact boundary.counted

/-- What a change event whose range lies on character boundaries does to the client's text. -/
inductive ClientEdit (breaks : LineBreaks) (encoding : PositionEncoding) :
    Text → ContentChange → Text → Prop
  | replace {change : ContentChange} (text : Text) (full : change.range = none) :
      ClientEdit breaks encoding text change change.text
  | edit {change : ContentChange} (range : Range) (before removed after : Text) (ranged : change.range = some range)
      (start : AtBoundary breaks encoding before (removed ++ after) range.start)
      (stop : AtBoundary breaks encoding (before ++ removed) after range.stop) :
      ClientEdit breaks encoding (before ++ removed ++ after) change (before ++ change.text ++ after)

/-- Before a ranged change the text has fewer than `2 ^ 32` bytes and lines, and for a client that
also ends lines at carriage returns it has no lone one. -/
def Trackable (breaks : LineBreaks) (text : Text) (change : ContentChange) : Prop :=
  change.range.isSome → Fits text ∧ (breaks = .lsp → NoLoneReturn text)

inductive ClientRun (breaks : LineBreaks) (encoding : PositionEncoding)
    (allowed : Text → ContentChange → Prop) : Text → List ContentChange → Text → Prop
  | done (text : Text) : ClientRun breaks encoding allowed text [] text
  | step {text next last : Text} {change : ContentChange} {changes : List ContentChange}
      (here : allowed text change) (edit : ClientEdit breaks encoding text change next)
      (later : ClientRun breaks encoding allowed next changes last) :
      ClientRun breaks encoding allowed text (change :: changes) last

theorem applyChange_edit {change : ContentChange} {next : Text}
    (cached : doc.lineMap = LineMap.new doc.text) (trackable : Trackable breaks doc.text change)
    (edit : ClientEdit breaks encoding doc.text change next) :
    doc.applyChange change encoding = some (true, doc.withText next) := by
  generalize same : doc.text = text at edit trackable cached
  cases edit with
  | replace _ full => simp [DocState.applyChange, full]
  | edit range before removed after ranged start stop =>
    obtain ⟨fits, none⟩ := trackable (by rw [ranged]; rfl)
    have startByte : positionToByte (LineMap.new (before ++ (removed ++ after)))
        (before ++ (removed ++ after)) range.start encoding = some (UInt32.ofNat (byteLength before)) :=
      positionToByte_boundary (by rwa [← List.append_assoc]) (start.toLf (by rwa [← List.append_assoc]))
    rw [← List.append_assoc] at startByte
    have stopByte := positionToByte_boundary fits (stop.toLf none)
    have size : byteLength (before ++ removed ++ after) =
        byteLength before + byteLength removed + byteLength after := by
      rw [byteLength_append, byteLength_append]
    have startNat : (UInt32.ofNat (byteLength before)).toNat = byteLength before :=
      toNat_offset fits (by omega)
    have stopNat : (UInt32.ofNat (byteLength (before ++ removed))).toNat = byteLength (before ++ removed) :=
      toNat_offset fits (by rw [byteLength_append]; omega)
    have ordered : ¬ (byteLength before > byteLength (before ++ removed) ∨
        byteLength (before ++ removed) > byteLength (before ++ removed ++ after)) := by
      rw [size, byteLength_append]
      omega
    simp only [DocState.applyChange, ranged, cached, same, startByte, stopByte, startNat, stopNat,
      Option.bind_eq_bind, Option.bind_some, if_neg ordered]
    rw [byteLength_append, replaceRange_middle]
    rfl

theorem withText_cached (doc : DocState) (text : Text) :
    (doc.withText text).lineMap = LineMap.new (doc.withText text).text := rfl

theorem applyChanges_run {last : Text} {changes : List ContentChange}
    (run : ClientRun breaks encoding (Trackable breaks) text changes last)
    (cached : doc.lineMap = LineMap.new doc.text) (same : doc.text = text) :
    DocState.applyChanges encoding changes doc = some (changes.map fun _ => true, doc.withText last) := by
  induction run generalizing doc with
  | done text =>
    have unchanged : doc.withText text = doc := by
      simp [DocState.withText, ← same, ← cached]
    simp [DocState.applyChanges, unchanged]
  | step here edit later ih =>
    subst same
    have applied := applyChange_edit cached here edit
    have followed := ih (withText_cached doc _) rfl
    simp only [DocState.applyChanges, applied, followed, Option.bind_eq_bind, Option.bind_some,
      Option.pure_def, List.map_cons]
    rfl

inductive ConvertsTo (text : Text) (encoding : PositionEncoding) (pos : Position) : Nat → Prop
  | line {before line rest : Text} (located : LineAt text pos.line.toNat before line rest) :
      ConvertsTo text encoding pos (byteLength before + columnBytes encoding line pos.character)
  | past (after : newlines text < pos.line.toNat) : ConvertsTo text encoding pos (byteLength text)

def PointsInside (text : Text) (pos : Position) : Prop :=
  ∃ before char after column, text = before ++ char :: after ∧
    clientPosition .lf .utf8 before (char :: after) (0, 0) = (pos.line.toNat, column) ∧
    column < pos.character.toNat ∧ pos.character.toNat < column + char.utf8Size

def Position.Before (first second : Position) : Prop :=
  first.line < second.line ∨ first.line = second.line ∧ first.character < second.character

theorem exists_convertsTo (text : Text) (encoding : PositionEncoding) (pos : Position) :
    ∃ offset, ConvertsTo text encoding pos offset := by
  by_cases past : newlines text < pos.line.toNat
  · exact ⟨_, .past past⟩
  · obtain ⟨_, line, _, located⟩ := exists_lineAt (Nat.le_of_not_lt past)
    exact ⟨_, .line located⟩

namespace ConvertsTo

variable {text : Text} {encoding : PositionEncoding} {pos : Position} {offset : Nat}

theorem within (converts : ConvertsTo text encoding pos offset) : offset ≤ byteLength text := by
  cases converts with
  | @line before line rest located =>
    have inside := columnBytes_le encoding line pos.character
    rw [located.byteLength_eq]
    omega
  | past _ => exact Nat.le_refl _

theorem positionToByte_eq (converts : ConvertsTo text encoding pos offset) (fits : Fits text) :
    positionToByte (LineMap.new text) text pos encoding = some (UInt32.ofNat offset) := by
  cases converts with
  | line located => exact located.positionToByte_eq fits encoding
  | past after => exact positionToByte_past fits after encoding

theorem unique (converts : ConvertsTo text encoding pos offset) (fits : Fits text) {other : Nat}
    (again : ConvertsTo text encoding pos other) : offset = other := by
  have same := converts.positionToByte_eq fits
  rw [again.positionToByte_eq fits, Option.some.injEq] at same
  have value := congrArg UInt32.toNat same
  rw [toNat_offset fits converts.within, toNat_offset fits again.within] at value
  exact value.symm

end ConvertsTo

variable {text before line rest : Text} {pos : Position} {offset : Nat}

theorem LineAt.pointsInside (located : LineAt text pos.line.toNat before line rest)
    (inside : InsideChar line pos.character.toNat) : PointsInside text pos := by
  obtain ⟨front, char, back, rfl, lower, upper⟩ := inside
  have plain : '\n' ∉ front := fun member => located.plain (List.mem_append_left _ member)
  refine ⟨before ++ front, char, back ++ rest, byteLength front, ?_, ?_, lower, upper⟩
  · rw [located.split]
    simp
  · rw [clientPosition_append, clientPosition_opens .utf8 located.opens,
      clientPosition_plain .utf8 plain, located.index_eq, width_utf8, Nat.zero_add]

theorem ConvertsTo.cases {encoding : PositionEncoding} (converts : ConvertsTo text encoding pos offset) :
    (∃ left right, text = left ++ right ∧ byteLength left = offset) ∨ encoding = .utf8 ∧ PointsInside text pos := by
  cases converts with
  | past _ => exact .inl ⟨text, [], by simp, rfl⟩
  | @line before line rest located =>
    have split := located.split
    have column : (∃ front back, line = front ++ back ∧ byteLength front = columnBytes encoding line pos.character) ∨
        encoding = .utf8 ∧ InsideChar line pos.character.toNat := by
      cases encoding with
      | utf8 =>
        by_cases clamped : byteLength line ≤ pos.character.toNat
        · exact .inl ⟨line, [], by simp, (Nat.min_eq_right clamped).symm⟩
        · have reached : columnBytes .utf8 line pos.character = pos.character.toNat :=
            Nat.min_eq_left (by omega)
          rcases insideChar_or_boundary (Nat.le_of_not_le clamped) with inside | boundary
          · exact .inr ⟨rfl, inside⟩
          · obtain ⟨front, back, joined, length⟩ := boundary
            exact .inl ⟨front, back, joined, by rw [length, reached]⟩
      | utf16 =>
        obtain ⟨front, back, joined, reached⟩ := exists_utf16ColumnBytes pos.character line 0 0
        refine .inl ⟨front, back, joined, ?_⟩
        have size : byteLength front ≤ byteLength line := by
          rw [joined, byteLength_append]
          exact Nat.le_add_right _ _
        simp only [columnBytes, reached, Nat.zero_add]
        exact (Nat.min_eq_left size).symm
    rcases column with ⟨front, back, rfl, length⟩ | ⟨utf8, inside⟩
    · refine .inl ⟨before ++ front, back ++ rest, ?_, ?_⟩
      · rw [split]
        simp
      · rw [byteLength_append, length]
    · exact .inr ⟨utf8, located.pointsInside inside⟩

theorem ConvertsTo.insideChar (converts : ConvertsTo text .utf8 pos offset) (fits : Fits text)
    (inside : PointsInside text pos) : InsideChar text offset := by
  obtain ⟨left, char, right, _, rfl, counted, _⟩ := inside
  obtain ⟨before, front, back, rest, rfl, split, plain, located⟩ :=
    exists_lineAt_boundary left (char :: right)
  rw [clientPosition_append, clientPosition_opens .utf8 located.opens,
    clientPosition_plain .utf8 plain, width_utf8, Nat.zero_add, Prod.mk.injEq] at counted
  have index : newlines (before ++ front) = pos.line.toNat := by
    rw [newlines_append, newlines_of_not_mem plain, Nat.add_zero, counted.1]
  rw [index] at located
  have shape : InsideChar (front ++ back) pos.character.toNat := by
    cases back with
    | nil =>
      -- Then the character would be the newline, which is a single byte.
      rcases located.closes with closed | ⟨_, closed⟩
      · rw [closed] at split
        simp at split
      · rw [closed, List.nil_append, List.cons.injEq] at split
        have single : char.utf8Size = 1 := by rw [split.1]; decide
        omega
    | cons first back =>
      rw [List.cons_append, List.cons.injEq] at split
      refine ⟨front, first, back, rfl, ?_, ?_⟩
      · omega
      · rw [← split.1]
        omega
  have reached : columnBytes .utf8 (front ++ back) pos.character = pos.character.toNat :=
    Nat.min_eq_left (Nat.le_of_lt shape.lt_byteLength)
  have same := converts.unique fits (.line located)
  rw [same, reached, split]
  have whole := shape.append before rest
  rwa [List.append_assoc before, List.append_assoc front, ← List.append_assoc before] at whole

theorem LineAt.lt_of_lt {first second : Nat} {before' line' rest' : Text}
    (here : LineAt text first before line rest) (there : LineAt text second before' line' rest')
    (ordered : first < second) : byteLength before + byteLength line < byteLength before' := by
  have left : before ++ line <+: text := ⟨rest, here.split.symm⟩
  have right : before' <+: text := ⟨line' ++ rest', by rw [there.split, List.append_assoc]⟩
  have count : newlines (before ++ line) = first := by
    rw [newlines_append, newlines_of_not_mem here.plain, here.index_eq, Nat.add_zero]
  rcases List.prefix_or_prefix_of_prefix left right with ⟨more, joined⟩ | ⟨more, joined⟩
  · have size : byteLength before' = byteLength before + byteLength line + byteLength more := by
      rw [← joined, byteLength_append, byteLength_append]
    have lines : newlines before' = first + newlines more := by
      rw [← joined, newlines_append, count]
    have index := there.index_eq
    have positive : newlines more ≤ byteLength more := newlines_le_byteLength more
    omega
  · have lines : first = second + newlines more := by
      rw [← count, ← joined, newlines_append, there.index_eq]
    omega

section Order

variable {text : Text} {first second : Position} {offset later : Nat}

theorem ConvertsTo.le_of_before (before : first.Before second) (fits : Fits text)
    (here : ConvertsTo text .utf8 first offset) (there : ConvertsTo text .utf8 second later) :
    offset ≤ later := by
  cases there with
  | past _ => exact here.within
  | @line front line rest located =>
    rcases before with lower | ⟨same, lower⟩
    · rw [UInt32.lt_iff_toNat_lt] at lower
      cases here with
      | past after =>
        have count := located.newlines_eq
        omega
      | @line front' line' rest' located' =>
        have ends := located'.lt_of_lt located lower
        have inside := columnBytes_le .utf8 line' first.character
        omega
    · rw [← same] at located
      have equal := here.unique fits (.line located)
      rw [UInt32.lt_iff_toNat_lt] at lower
      simp only [equal, columnBytes]
      omega

theorem ConvertsTo.lt_of_before (before : first.Before second) (fits : Fits text)
    (here : ConvertsTo text .utf8 first offset) (there : ConvertsTo text .utf8 second later)
    (inside : PointsInside text first ∨ PointsInside text second) : offset < later := by
  have ordered := ConvertsTo.le_of_before before fits here there
  rcases Nat.lt_or_eq_of_le ordered with lower | equal
  · exact lower
  · exfalso
    have middle : InsideChar text later := by
      rcases inside with inside | inside
      · rw [← equal]
        exact here.insideChar fits inside
      · exact there.insideChar fits inside
    cases there with
    | past _ => exact Nat.lt_irrefl _ middle.lt_byteLength
    | @line front line rest located =>
      rcases before with lower | ⟨same, lower⟩
      · rw [UInt32.lt_iff_toNat_lt] at lower
        cases here with
        | past after =>
          have count := located.newlines_eq
          omega
        | @line front' line' rest' located' =>
          have ends := located'.lt_of_lt located lower
          have bound := columnBytes_le .utf8 line' first.character
          omega
      · rw [← same] at located
        have value := here.unique fits (.line located)
        rw [UInt32.lt_iff_toNat_lt] at lower
        -- Both columns would be cut off at the end of the line, which is a boundary.
        have clamped : columnBytes .utf8 line second.character = byteLength line := by
          simp only [columnBytes] at *
          omega
        rw [clamped] at middle
        have cut := splitAtByte_append (front ++ line) rest
        rw [← located.split, byteLength_append, splitAtByte_insideChar middle] at cut
        simp at cut

end Order

variable {encoding : PositionEncoding} {doc : DocState}

inductive Reached (encoding : PositionEncoding) : DocState → Prop
  | opened (text : Text) (version : Int) (isOpen : Bool) : Reached encoding (DocState.new text version isOpen)
  | changed {doc next : DocState} {change : ContentChange} {accepted : Bool} (held : Reached encoding doc)
      (applied : doc.applyChange change encoding = some (accepted, next)) : Reached encoding next
  | set {doc : DocState} (text : Text) (version : Int) (held : Reached encoding doc) :
      Reached encoding (doc.setText text version)
  | numbered {doc : DocState} (version : Int) (held : Reached encoding doc) : Reached encoding { doc with version }

/-- The change is refused and the document stays as it is, or it replaces one part of the text. -/
def WellBehaved (encoding : PositionEncoding) (doc : DocState) (change : ContentChange) : Prop :=
  doc.applyChange change encoding = some (false, doc) ∨
    ∃ before removed after, doc.text = before ++ removed ++ after ∧
      doc.applyChange change encoding = some (true, doc.withText (before ++ change.text ++ after))

def SplitsCharacter (encoding : PositionEncoding) (text : Text) (change : ContentChange) : Prop :=
  encoding = .utf8 ∧ ∃ range, change.range = some range ∧ ¬ range.stop.Before range.start ∧
    (PointsInside text range.start ∨ PointsInside text range.stop)

theorem applyChange_accepted {next : DocState} {change : ContentChange} {accepted : Bool}
    (applied : doc.applyChange change encoding = some (accepted, next)) :
    next = doc ∨ ∃ text, next = doc.withText text := by
  cases ranged : change.range with
  | none =>
    simp only [DocState.applyChange, ranged, Option.some.injEq, Prod.mk.injEq] at applied
    exact .inr ⟨_, applied.2.symm⟩
  | some range =>
    simp only [DocState.applyChange, ranged, Option.bind_eq_bind, Option.bind_eq_some_iff, Option.pure_def] at applied
    obtain ⟨_, -, _, -, decided⟩ := applied
    split at decided
    · rw [Option.some.injEq, Prod.mk.injEq] at decided
      exact .inl decided.2.symm
    · rw [Option.bind_eq_some_iff] at decided
      obtain ⟨text, -, decided⟩ := decided
      rw [Option.some.injEq, Prod.mk.injEq] at decided
      exact .inr ⟨text, decided.2.symm⟩

theorem Reached.cached (reached : Reached encoding doc) : doc.lineMap = LineMap.new doc.text := by
  induction reached with
  | opened text version isOpen => rfl
  | changed held applied ih =>
    rcases applyChange_accepted applied with rfl | ⟨text, rfl⟩
    · exact ih
    · rfl
  | set text version held ih => rfl
  | numbered version held ih => exact ih

section Ranges

variable {encoding : PositionEncoding} {doc : DocState} {change : ContentChange} {range : Range} {start stop : Nat}

theorem applyChange_ranged (ranged : change.range = some range)
    (cached : doc.lineMap = LineMap.new doc.text) (fits : Fits doc.text)
    (starts : ConvertsTo doc.text encoding range.start start)
    (stops : ConvertsTo doc.text encoding range.stop stop) :
    doc.applyChange change encoding = if stop < start then some (false, doc)
      else (replaceRange doc.text start stop change.text).map fun text => (true, doc.withText text) := by
  have inside := stops.within
  simp only [DocState.applyChange, ranged, cached, starts.positionToByte_eq fits,
    stops.positionToByte_eq fits, Option.bind_eq_bind, Option.bind_some,
    toNat_offset fits starts.within, toNat_offset fits stops.within]
  by_cases reversed : stop < start
  · rw [if_pos (Or.inl reversed), if_pos reversed]
    rfl
  · rw [if_neg (by omega), if_neg reversed]
    cases replaceRange doc.text start stop change.text <;> rfl

theorem wellBehaved_of_not_splits (ranged : change.range = some range)
    (cached : doc.lineMap = LineMap.new doc.text) (fits : Fits doc.text)
    (starts : ConvertsTo doc.text encoding range.start start)
    (stops : ConvertsTo doc.text encoding range.stop stop)
    (whole : ¬ SplitsCharacter encoding doc.text change) : WellBehaved encoding doc change := by
  have applied := applyChange_ranged ranged cached fits starts stops
  by_cases reversed : stop < start
  · rw [if_pos reversed] at applied
    exact .inl applied
  rw [if_neg reversed] at applied
  -- In order, so neither end points inside a character.
  have boundaries : (∃ left right, doc.text = left ++ right ∧ byteLength left = start) ∧
      ∃ left right, doc.text = left ++ right ∧ byteLength left = stop := by
    by_cases inside : encoding = .utf8 ∧ (PointsInside doc.text range.start ∨ PointsInside doc.text range.stop)
    · obtain ⟨rfl, inside⟩ := inside
      have backwards : range.stop.Before range.start := by
        by_contra forwards
        exact whole ⟨rfl, range, ranged, forwards, inside⟩
      exact absurd (ConvertsTo.lt_of_before backwards fits stops starts inside.symm) reversed
    · refine ⟨?_, ?_⟩
      · rcases starts.cases with boundary | split
        · exact boundary
        · exact absurd ⟨split.1, .inl split.2⟩ inside
      · rcases stops.cases with boundary | split
        · exact boundary
        · exact absurd ⟨split.1, .inr split.2⟩ inside
  obtain ⟨⟨before, rest, split, rfl⟩, kept, after, joined, rfl⟩ := boundaries
  obtain ⟨removed, rfl⟩ : ∃ removed, kept = before ++ removed := by
    have left : before <+: doc.text := ⟨rest, split.symm⟩
    have right : kept <+: doc.text := ⟨after, joined.symm⟩
    rcases List.prefix_or_prefix_of_prefix left right with ⟨more, extended⟩ | ⟨more, extended⟩
    · exact ⟨more, extended.symm⟩
    · have size := congrArg byteLength extended
      rw [byteLength_append] at size
      have short := length_le_byteLength more
      have empty : more = [] := List.length_eq_zero_iff.mp (by omega)
      exact ⟨[], by rw [← extended, empty]; simp⟩
  refine .inr ⟨before, removed, after, joined, ?_⟩
  rw [applied, joined, byteLength_append, replaceRange_middle]
  rfl

theorem not_wellBehaved_of_splits (cached : doc.lineMap = LineMap.new doc.text)
    (fits : Fits doc.text) (splits : SplitsCharacter encoding doc.text change) :
    doc.applyChange change encoding = none := by
  obtain ⟨rfl, range, ranged, forwards, inside⟩ := splits
  obtain ⟨start, starts⟩ := exists_convertsTo doc.text .utf8 range.start
  obtain ⟨stop, stops⟩ := exists_convertsTo doc.text .utf8 range.stop
  have ordered : start ≤ stop := by
    by_cases before : range.start.Before range.stop
    · exact ConvertsTo.le_of_before before fits starts stops
    · have same : range.start = range.stop := by
        simp only [Position.Before, not_or, not_and, UInt32.lt_iff_toNat_lt] at before forwards
        have line : range.start.line = range.stop.line := UInt32.toNat.inj (by omega)
        have column : range.start.character = range.stop.character :=
          UInt32.toNat.inj (by have := before.2 line; have := forwards.2 line.symm; omega)
        exact congrArg₂ Position.mk line column
      rw [← same] at stops
      exact Nat.le_of_eq (starts.unique fits stops)
  have broken : replaceRange doc.text start stop change.text = none := by
    rcases inside with inside | inside
    · simp [replaceRange, splitAtByte_insideChar (starts.insideChar fits inside)]
    · simp [replaceRange, splitAtByte_insideChar (stops.insideChar fits inside)]
  rw [applyChange_ranged ranged cached fits starts stops, if_neg (by omega), broken, Option.map_none]

end Ranges

/-- The server follows every client whose steps are trackable, and from every document it can hold
a change of any kind is refused or well defined exactly when it splits no character. -/
theorem incremental_sync (breaks : LineBreaks) (encoding : PositionEncoding) :
    (∀ text changes last version isOpen, ClientRun breaks encoding (Trackable breaks) text changes last →
      DocState.applyChanges encoding changes (DocState.new text version isOpen) =
        some (changes.map fun _ => true, DocState.new last version isOpen)) ∧
    ∀ doc change, Reached encoding doc → Fits doc.text →
      (WellBehaved encoding doc change ↔ ¬ SplitsCharacter encoding doc.text change) := by
  refine ⟨?_, ?_⟩
  · intro text changes last version isOpen run
    exact applyChanges_run run rfl rfl
  · intro doc change reached fits
    constructor
    · intro behaved splits
      have panics := not_wellBehaved_of_splits reached.cached fits splits
      rcases behaved with refused | ⟨_, _, _, _, applied⟩
      · rw [panics] at refused
        cases refused
      · rw [panics] at applied
        cases applied
    · intro whole
      cases ranged : change.range with
      | none =>
        refine .inr ⟨[], doc.text, [], by simp, ?_⟩
        simp [DocState.applyChange, ranged]
      | some range =>
        obtain ⟨start, starts⟩ := exists_convertsTo doc.text encoding range.start
        obtain ⟨stop, stops⟩ := exists_convertsTo doc.text encoding range.stop
        exact wellBehaved_of_not_splits ranged reached.cached fits starts stops whole

namespace SyncSample

/-- Replace the accented letter of the second line, then append to the first line. -/
def changes : List ContentChange := [⟨some ⟨⟨1, 0⟩, ⟨1, 1⟩⟩, ['e']⟩, ⟨some ⟨⟨0, 1⟩, ⟨0, 1⟩⟩, ['b']⟩]

theorem run : ClientRun .lsp .utf16 (Trackable .lsp) ['a', '\n', 'é'] changes ['a', 'b', '\n', 'e'] := by
  have fits : ∀ text : Text, byteLength text < 100 → newlines text < 100 → Fits text :=
    fun text small few => ⟨by omega, by omega⟩
  have whole : ∀ text : Text, '\r' ∉ text → NoLoneReturn text := by
    intro text none _ _ split
    exact absurd (by rw [split]; simp) none
  refine .step (fun _ => ⟨fits _ (by decide) (by decide), fun _ => whole _ (by decide)⟩)
    (.edit ⟨⟨1, 0⟩, ⟨1, 1⟩⟩ ['a', '\n'] ['é'] [] rfl ⟨by decide, by decide⟩ ⟨by decide, by decide⟩) ?_
  refine .step (fun _ => ⟨fits _ (by decide) (by decide), fun _ => whole _ (by decide)⟩)
    (.edit ⟨⟨0, 1⟩, ⟨0, 1⟩⟩ ['a'] [] ['\n', 'e'] rfl ⟨by decide, by decide⟩ ⟨by decide, by decide⟩) ?_
  exact .done _

theorem followed : DocState.applyChanges .utf16 changes (DocState.new ['a', '\n', 'é'] 1 true) =
    some ([true, true], DocState.new ['a', 'b', '\n', 'e'] 1 true) :=
  (incremental_sync .lsp .utf16).1 _ _ _ _ _ run

/-- A UTF-8 column inside a character panics, and a protocol client's line after a lone carriage
return is another one than the server's. -/
theorem loses_sync : ¬ WellBehaved .utf8 (DocState.new ['é'] 1 true) ⟨some ⟨⟨0, 1⟩, ⟨0, 1⟩⟩, ['x']⟩ ∧
    ClientEdit .lsp .utf8 ['a', '\r', 'b'] ⟨some ⟨⟨1, 0⟩, ⟨1, 0⟩⟩, ['x']⟩ ['a', '\r', 'x', 'b'] ∧
    (DocState.new ['a', '\r', 'b'] 1 true).applyChange ⟨some ⟨⟨1, 0⟩, ⟨1, 0⟩⟩, ['x']⟩ .utf8 =
      some (true, DocState.new ['a', '\r', 'b', 'x'] 1 true) := by
  refine ⟨?_, ?_, by decide⟩
  · rintro (refused | ⟨_, _, _, _, applied⟩)
    · cases refused
    · cases applied
  · exact .edit ⟨⟨1, 0⟩, ⟨1, 0⟩⟩ ['a', '\r'] [] ['b'] rfl ⟨by decide, by decide⟩ ⟨by decide, by decide⟩

end SyncSample

end Gruel.Lsp
