import Gruel.Document

/-!
Editor positions and byte offsets convert into each other.
-/

namespace Gruel.Lsp

open CharText

variable {before middle after text : Text} {encoding : PositionEncoding} {pos : Position}

theorem bounds_of_mem_lineStartsFrom {start : UInt32} {offset : Nat} {source : List UInt8}
    (fits : offset + source.length < 2 ^ 32) (member : start ∈ lineStartsFrom offset source) :
    offset < start.toNat ∧ start.toNat ≤ offset + source.length := by
  induction source generalizing offset with
  | nil => simp [lineStartsFrom] at member
  | cons byte source ih =>
    rw [List.length_cons] at fits ⊢
    simp only [lineStartsFrom] at member
    split at member
    · rcases List.mem_cons.mp member with rfl | later
      · rw [UInt32.toNat_ofNat', Nat.mod_eq_of_lt (by omega)]
        omega
      · have bounds := ih (by omega) later
        omega
    · have bounds := ih (by omega) member
      omega

theorem min_offset (fits : Fits text) {offset : Nat} (within : offset ≤ byteLength text) :
    min (UInt32.ofNat offset) (UInt32.ofNat (byteLength text)) = UInt32.ofNat offset := by
  apply if_pos
  rw [UInt32.le_iff_toNat_le, toNat_offset fits within, toNat_offset fits (Nat.le_refl _)]
  exact within

/-- The starts up to an offset are those of the text in front of it. -/
theorem takeWhile_lineStarts {before after : List UInt8} (fits : (before ++ after).length < 2 ^ 32) :
    ((0 : UInt32) :: lineStartsFrom 0 (before ++ after)).takeWhile
        (fun start => decide (start ≤ UInt32.ofNat before.length)) =
      0 :: lineStartsFrom 0 before := by
  rw [List.length_append] at fits
  have here : (UInt32.ofNat before.length).toNat = before.length := by
    rw [UInt32.toNat_ofNat', Nat.mod_eq_of_lt (by omega)]
  have early : ∀ start ∈ (0 : UInt32) :: lineStartsFrom 0 before,
      decide (start ≤ UInt32.ofNat before.length) = true := by
    intro start member
    rw [decide_eq_true_eq, UInt32.le_iff_toNat_le, here]
    rcases List.mem_cons.mp member with rfl | member
    · exact Nat.zero_le _
    · have bounds := bounds_of_mem_lineStartsFrom (by omega) member
      omega
  have late : (lineStartsFrom (0 + before.length) after).takeWhile
      (fun start => decide (start ≤ UInt32.ofNat before.length)) = [] := by
    cases found : lineStartsFrom (0 + before.length) after with
    | nil => rfl
    | cons start starts =>
      have bounds := bounds_of_mem_lineStartsFrom (by omega) (found ▸ List.mem_cons_self)
      apply List.takeWhile_cons_of_neg
      rw [decide_eq_true_eq, UInt32.le_iff_toNat_le, here]
      omega
  rw [lineStartsFrom_append, ← List.cons_append, List.takeWhile_append_of_pos early, late, List.append_nil]

theorem lineForByte_boundary (fits : Fits (before ++ after)) :
    (LineMap.new (before ++ after)).lineForByte (UInt32.ofNat (byteLength before)) =
      UInt32.ofNat (newlines before) := by
  have size := byteLength_append before after
  have clamped : min (UInt32.ofNat (byteLength before)) (LineMap.new (before ++ after)).sourceLen =
      UInt32.ofNat (byteLength before) := min_offset fits (by omega)
  have bound : (bytes before ++ bytes after).length < 2 ^ 32 := by
    rw [← bytes_append, length_bytes]
    exact fits.1
  have starts := takeWhile_lineStarts bound
  rw [length_bytes, ← bytes_append] at starts
  simp only [LineMap.lineForByte, clamped]
  dsimp only [LineMap.new]
  rw [starts, List.length_cons, length_lineStartsFrom, Nat.add_sub_cancel]

theorem one_le_units (encoding : PositionEncoding) (char : Char) : 1 ≤ units encoding char := by
  cases encoding with
  | utf8 => exact char.utf8Size_pos
  | utf16 =>
    have cases := lenUtf16_cases char
    simp only [units]
    omega

theorem units_le_utf8Size (encoding : PositionEncoding) (char : Char) : units encoding char ≤ char.utf8Size := by
  cases encoding with
  | utf8 => exact Nat.le_refl _
  | utf16 =>
    simp only [units, lenUtf16, Char.utf8Size, UInt32.lt_iff_toNat_lt, UInt32.le_iff_toNat_le]
    split
    · split <;> try split <;> try split
      all_goals decide
    · rename_i wide
      rw [if_neg, if_neg, if_neg] <;> simp at wide ⊢ <;> omega

theorem length_le_width (encoding : PositionEncoding) (text : Text) : text.length ≤ width encoding text := by
  induction text with
  | nil => exact Nat.le_refl _
  | cons char text ih =>
    have one := one_le_units encoding char
    rw [List.length_cons, width_cons]
    omega

theorem width_le_byteLength (encoding : PositionEncoding) (text : Text) : width encoding text ≤ byteLength text := by
  induction text with
  | nil => exact Nat.le_refl _
  | cons char text ih =>
    have few := units_le_utf8Size encoding char
    rw [width_cons, byteLength_cons]
    omega

/-- The position of a boundary is the place where the client counts it. -/
theorem byteToPosition_boundary (fits : Fits (before ++ after)) (encoding : PositionEncoding) :
    ∃ pos, byteToPosition (LineMap.new (before ++ after)) (before ++ after)
        (UInt32.ofNat (byteLength before)) encoding = some pos ∧
      AtBoundary .lf encoding before after pos := by
  have found := lineForByte_boundary fits
  obtain ⟨opening, front, back, rest, rfl, rfl, plain, located⟩ :=
    exists_lineAt_boundary before after
  have size := located.byteLength_eq
  have count := located.newlines_eq
  have bounds := fits
  have narrow := width_le_byteLength encoding front
  have joined := byteLength_append opening front
  have pieces := byteLength_append front back
  obtain ⟨_, _⟩ := bounds
  have line : (UInt32.ofNat (newlines (opening ++ front))).toNat = newlines (opening ++ front) := by
    rw [UInt32.toNat_ofNat', Nat.mod_eq_of_lt (by omega)]
  have here : (UInt32.ofNat (byteLength (opening ++ front))).toNat = byteLength opening + byteLength front := by
    rw [toNat_offset fits (by omega), joined]
  have cut : slice (opening ++ front ++ (back ++ rest)) (byteLength opening)
      (byteLength opening + byteLength front) = some front := slice_middle opening front _
  have counted : clientPosition .lf encoding (opening ++ front) (back ++ rest) (0, 0) =
      (newlines (opening ++ front), width encoding front) := by
    rw [clientPosition_append, clientPosition_opens encoding located.opens,
      clientPosition_plain encoding plain, Nat.zero_add, newlines_append,
      newlines_of_not_mem plain, Nat.add_zero]
  rw [← line] at located
  refine ⟨⟨UInt32.ofNat (newlines (opening ++ front)), UInt32.ofNat (width encoding front)⟩, ?_, ?_⟩
  · simp only [byteToPosition, min_offset fits (by omega : byteLength (opening ++ front) ≤ _), found,
      located.lineStart_eq, here, toNat_offset fits (by omega : byteLength opening ≤ _), cut]
    cases encoding with
    | utf8 => simp [width_utf8]
    | utf16 => rfl
  · refine ⟨?_, fun lsp => by cases lsp⟩
    rw [counted, line, UInt32.toNat_ofNat', Nat.mod_eq_of_lt (by omega)]

theorem AtBoundary.same_line {first second : Position} (plain : '\n' ∉ middle)
    (earlier : AtBoundary .lf encoding before (middle ++ after) first)
    (later : AtBoundary .lf encoding (before ++ middle) after second) :
    first.line = second.line ∧ second.character.toNat = first.character.toNat + width encoding middle := by
  have counted := later.counted
  rw [clientPosition_append, earlier.counted, clientPosition_plain encoding plain, Prod.mk.injEq] at counted
  exact ⟨UInt32.toNat.inj counted.1, counted.2.symm⟩

theorem AtBoundary.precedes {first second : Position} (nonempty : middle ≠ [])
    (earlier : AtBoundary .lf encoding before (middle ++ after) first)
    (later : AtBoundary .lf encoding (before ++ middle) after second) : first.Before second := by
  simp only [Position.Before, UInt32.lt_iff_toNat_lt]
  by_cases broken : '\n' ∈ middle
  · have counted := later.counted
    rw [clientPosition_append, earlier.counted] at counted
    have line := clientPosition_line encoding middle after first.line.toNat first.character.toNat
    rw [counted] at line
    have more : 0 < newlines middle := List.count_pos_iff.mpr broken
    omega
  · obtain ⟨line, _⟩ := earlier.same_line broken later
    have long := length_le_width encoding middle
    have positive := List.length_pos_iff.mpr nonempty
    exact .inr ⟨line, by omega⟩

/-- Positions and byte offsets convert into each other without loss. -/
structure Faithful (text : Text) (encoding : PositionEncoding) : Prop where
  roundTrip : ∀ before after, text = before ++ after →
    ∃ pos, byteToPosition (LineMap.new text) text (UInt32.ofNat (byteLength before)) encoding = some pos ∧
      positionToByte (LineMap.new text) text pos encoding = some (UInt32.ofNat (byteLength before))
  increasing : ∀ before middle after first second, text = before ++ middle ++ after → middle ≠ [] →
    byteToPosition (LineMap.new text) text (UInt32.ofNat (byteLength before)) encoding =
      some first →
    byteToPosition (LineMap.new text) text (UInt32.ofNat (byteLength (before ++ middle)))
      encoding = some second → first.Before second
  total : ∀ pos, ∃ before after, text = before ++ after ∧
    positionToByte (LineMap.new text) text pos encoding = some (UInt32.ofNat (byteLength before))

def SingleBytes (text : Text) : Prop := ∀ char ∈ text, char.utf8Size = 1

theorem PointsInside.not_singleBytes (inside : PointsInside text pos) : ¬ SingleBytes text := by
  obtain ⟨_, char, _, _, rfl, -, _⟩ := inside
  intro single
  have size := single char (by simp)
  omega

theorem exists_pointsInside (fits : Fits text) (wide : ¬ SingleBytes text) : ∃ pos, PointsInside text pos := by
  simp only [SingleBytes, not_forall] at wide
  obtain ⟨char, member, wide⟩ := wide
  obtain ⟨before, after, rfl⟩ := List.append_of_mem member
  have split : before ++ char :: after = before ++ [char] ++ after := by simp
  obtain ⟨pos, -, boundary⟩ := byteToPosition_boundary fits .utf8
  obtain ⟨next, -, later⟩ := byteToPosition_boundary (split ▸ fits) .utf8
  have plain : '\n' ∉ [char] := by
    rw [List.mem_singleton]
    rintro rfl
    exact wide (by decide)
  have positive := char.utf8Size_pos
  have below := next.character.toNat_lt
  have width := (boundary.same_line plain later).2
  rw [width_utf8, byteLength_cons, byteLength_nil] at width
  have column : (pos.character + 1).toNat = pos.character.toNat + 1 := by
    have one : (1 : UInt32).toNat = 1 := rfl
    rw [UInt32.toNat_add, one, Nat.mod_eq_of_lt (by omega)]
  exact ⟨⟨pos.line, pos.character + 1⟩, before, char, after, _, rfl, boundary.counted,
    by simp only; omega, by simp only; omega⟩

/-- In a text of `2 ^ 32 - 1` newlines the successor of the last line number saturates, so the end
of that line is before its start. -/
theorem positionToByte_saturated (short : byteLength text < 2 ^ 32)
    (many : 2 ^ 32 ≤ newlines text + 1) (encoding : PositionEncoding) (character : UInt32) :
    positionToByte (LineMap.new text) text ⟨4294967295, character⟩ encoding = none := by
  have last : (4294967295 : UInt32).toNat = 4294967295 := rfl
  have some_line : (4294967295 : UInt32).toNat ≤ newlines text := by omega
  obtain ⟨before, line, rest, located⟩ := exists_lineAt some_line
  have size := located.byteLength_eq
  have index := located.index_eq
  have crowded := newlines_le_byteLength before
  have empty : byteLength line = 0 ∧ byteLength rest = 0 := by omega
  obtain rfl := byteLength_eq_zero empty.1
  obtain rfl := byteLength_eq_zero empty.2
  have split := located.split
  simp only [List.append_nil] at split
  subst split
  have starts := located.lineStart_eq
  have whole : byteLength text = 4294967295 := by omega
  have next : (LineMap.new text).lineStarts[LineMap.saturatingSucc 4294967295]? = some 4294967295 := by
    have found := lineStarts_opens located.opens []
    rwa [List.append_nil, index, whole] at found
  have ends : (LineMap.new text).lineEnd text 4294967295 = 4294967294 := by
    rcases located.opens with rfl | ⟨front, rfl⟩
    · cases index
    · have byte : (bytes (front ++ ['\n']))[4294967294]? = some newline := by
        rw [byteLength_append] at whole
        have size : (bytes front).length = 4294967294 := by
          exact Nat.succ.inj whole
        rw [bytes_append, List.getElem?_append_right (Nat.le_of_eq size), size]
        rfl
      simp only [LineMap.lineEnd, next]
      exact if_pos ⟨by decide, byte⟩
  rw [whole] at starts
  simp only [positionToByte, starts, ends]
  rw [slice_reversed (by decide)]
  rfl

theorem faithful_iff (text : Text) (encoding : PositionEncoding) (short : byteLength text < 2 ^ 32) :
    Faithful text encoding ↔ newlines text + 1 < 2 ^ 32 ∧ (encoding = .utf8 → SingleBytes text) := by
  constructor
  · intro faithful
    have few : newlines text + 1 < 2 ^ 32 := by
      by_contra many
      obtain ⟨_, _, -, converted⟩ := faithful.total ⟨4294967295, 0⟩
      rw [positionToByte_saturated short (Nat.le_of_not_lt many)] at converted
      cases converted
    have fits : Fits text := ⟨short, few⟩
    refine ⟨few, ?_⟩
    rintro rfl
    by_contra wide
    obtain ⟨pos, inside⟩ := exists_pointsInside fits wide
    obtain ⟨before, after, rfl, converted⟩ := faithful.total pos
    obtain ⟨offset, converts⟩ := exists_convertsTo (before ++ after) .utf8 pos
    rw [converts.positionToByte_eq fits, Option.some.injEq] at converted
    have value := congrArg UInt32.toNat converted
    rw [toNat_offset fits converts.within, toNat_offset fits (by rw [byteLength_append]; omega)] at value
    have cut := splitAtByte_append before after
    rw [← value, splitAtByte_insideChar (converts.insideChar fits inside)] at cut
    cases cut
  · rintro ⟨few, single⟩
    have fits : Fits text := ⟨short, few⟩
    refine ⟨?_, ?_, ?_⟩
    · rintro before after rfl
      obtain ⟨pos, found, boundary⟩ := byteToPosition_boundary fits encoding
      exact ⟨pos, found, positionToByte_boundary fits boundary⟩
    · rintro before _ after _ _ rfl nonempty foundFirst foundSecond
      obtain ⟨pos, found, later⟩ := byteToPosition_boundary fits encoding
      rw [found, Option.some.injEq] at foundSecond
      rw [List.append_assoc] at fits foundFirst
      obtain ⟨_, found', earlier⟩ := byteToPosition_boundary fits encoding
      rw [found', Option.some.injEq] at foundFirst
      rw [← foundFirst, ← foundSecond]
      exact earlier.precedes nonempty later
    · intro pos
      obtain ⟨offset, converts⟩ := exists_convertsTo text encoding pos
      rcases converts.cases with ⟨before, after, split, rfl⟩ | ⟨utf8, inside⟩
      · exact ⟨before, after, split, converts.positionToByte_eq fits⟩
      · exact absurd (single utf8) inside.not_singleBytes

theorem faithful_accented : Faithful ['a', '\n', 'é'] .utf16 :=
  (faithful_iff _ _ (by decide)).2 ⟨by decide, fun utf8 => by cases utf8⟩

/-- UTF-8 column 1 of an accented letter converts to the offset between its two bytes. -/
theorem not_faithful_accented : ¬ Faithful ['é'] .utf8 := by
  intro faithful
  obtain ⟨_, _, split, converted⟩ := faithful.total ⟨0, 1⟩
  rcases List.append_eq_singleton_iff.mp split.symm with ⟨rfl, -⟩ | ⟨rfl, -⟩
  · exact absurd converted (by decide)
  · exact absurd converted (by decide)

end Gruel.Lsp
