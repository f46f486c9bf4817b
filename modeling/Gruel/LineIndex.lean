import Gruel.Positions

/-!
The line index: a table of line starts, searched for an offset, against the count of newlines in
front of the offset.
-/

namespace Gruel.Lsp

variable {before after source : List UInt8}

/-- Lines and columns count from one. The two functions take the part of the source before the
offset. -/
def byteOffsetToLine (source : List UInt8) (offset : Nat) : Nat :=
  (source.take (min offset source.length)).count newline + 1

def behindNewline (text : List UInt8) : Nat :=
  (text.reverse.takeWhile fun byte => decide (byte ≠ newline)).length

/-- `rfind('\n')`. -/
def rfindNewline (text : List UInt8) : Option Nat :=
  if behindNewline text = text.length then none else some (text.length - 1 - behindNewline text)

def byteOffsetToLineCol (source : List UInt8) (offset : Nat) : Nat × Nat :=
  let offset := min offset source.length
  let before := source.take offset
  match rfindNewline before with
  | some newlinePos => (before.count newline + 1, offset - newlinePos)
  | none => (1, offset + 1)

structure LineIndex where
  lineStarts : List UInt32
  sourceLen : UInt32

namespace LineIndex

def new (source : List UInt8) : LineIndex where
  lineStarts := 0 :: lineStartsFrom 0 source
  sourceLen := UInt32.ofNat source.length

def partitionPoint (index : LineIndex) (offset : UInt32) : Nat :=
  (index.lineStarts.takeWhile fun start => decide (start ≤ offset)).length

def lineNumber (index : LineIndex) (offset : UInt32) : Nat :=
  index.partitionPoint (min offset index.sourceLen)

def lineCol (index : LineIndex) (offset : UInt32) : Option (Nat × Nat) :=
  let offset := min offset index.sourceLen
  let lineIdx := index.partitionPoint offset
  index.lineStarts[lineIdx - 1]?.map fun lineStart => (lineIdx, (offset - lineStart).toNat + 1)

def lineCount (index : LineIndex) : Nat := index.lineStarts.length

end LineIndex

theorem length_lineStartsFrom_bytes (offset : Nat) (source : List UInt8) :
    (lineStartsFrom offset source).length = source.count newline := by
  induction source generalizing offset with
  | nil => rfl
  | cons byte source ih =>
    rw [lineStartsFrom, List.count_cons]
    split
    · next ends => simp [ih, ends]
    · next plain => simp [ih, plain]

theorem exists_lastNewline (ends : newline ∈ before) :
    ∃ front rest, before = front ++ newline :: rest ∧ newline ∉ rest := by
  obtain ⟨rest, front, split, absent⟩ :=
    List.eq_append_cons_of_mem (List.mem_reverse.mpr ends)
  refine ⟨front.reverse, rest.reverse, ?_, fun member => absent (List.mem_reverse.mp member)⟩
  rw [← List.reverse_reverse before, split]
  simp

theorem behindNewline_le (text : List UInt8) : behindNewline text ≤ text.length :=
  (List.takeWhile_sublist _).length_le.trans_eq List.length_reverse

theorem behindNewline_append (plain : newline ∉ after) :
    behindNewline (before ++ after) = after.length + behindNewline before := by
  have passes : ∀ byte ∈ after.reverse, decide (byte ≠ newline) = true := by
    intro byte member
    rw [decide_eq_true_eq]
    rintro rfl
    exact plain (List.mem_reverse.mp member)
  simp only [behindNewline, List.reverse_append, List.takeWhile_append_of_pos passes,
    List.length_append, List.length_reverse]

theorem behindNewline_plain (plain : newline ∉ before) : behindNewline before = before.length := by
  have whole := @behindNewline_append [] before plain
  simpa [behindNewline] using whole

theorem behindNewline_newline (front : List UInt8) (plain : newline ∉ after) :
    behindNewline (front ++ newline :: after) = after.length := by
  have last : behindNewline (front ++ [newline]) = 0 := by simp [behindNewline]
  rw [List.append_cons, behindNewline_append plain, last, Nat.add_zero]

def lineColOf (before : List UInt8) : Nat × Nat :=
  (before.count newline + 1, behindNewline before + 1)

theorem byteOffsetToLineCol_eq (source : List UInt8) (offset : Nat) :
    byteOffsetToLineCol source offset = lineColOf (source.take (min offset source.length)) := by
  have size : (source.take (min offset source.length)).length = min offset source.length := by
    rw [List.length_take]
    omega
  simp only [byteOffsetToLineCol, rfindNewline, lineColOf]
  generalize source.take (min offset source.length) = before at size
  rw [← size]
  by_cases ends : newline ∈ before
  · obtain ⟨front, _, rfl, plain⟩ := exists_lastNewline ends
    rw [behindNewline_newline front plain, if_neg (by simp; omega), List.length_append, List.length_cons]
    simp only [Prod.mk.injEq, true_and]
    omega
  · rw [behindNewline_plain ends, if_pos rfl, List.count_eq_zero_of_not_mem ends]

theorem lastStart (before : List UInt8) : ((0 : UInt32) :: lineStartsFrom 0 before)[before.count newline]? =
      some (UInt32.ofNat (before.length - behindNewline before)) := by
  by_cases ends : newline ∈ before
  · obtain ⟨front, rest, rfl, plain⟩ := exists_lastNewline ends
    rw [behindNewline_newline front plain, List.count_append, List.count_cons_self,
      List.count_eq_zero_of_not_mem plain, ← length_lineStartsFrom_bytes 0 front,
      lineStartsFrom_append, lineStartsFrom, if_pos rfl, lineStartsFrom_plain plain,
      List.length_append, List.length_cons]
    have behind : front.length + (rest.length + 1) - rest.length = 0 + front.length + 1 := by omega
    rw [← List.cons_append, List.getElem?_append_right (by simp), behind]
    simp
  · rw [behindNewline_plain ends, List.count_eq_zero_of_not_mem ends, Nat.sub_self]
    rfl

theorem lineColOf_append_lt (grows : after ≠ []) :
    Prod.Lex (· < ·) (· < ·) (lineColOf before) (lineColOf (before ++ after)) := by
  rw [lineColOf, lineColOf, Prod.lex_def, List.count_append]
  by_cases ends : newline ∈ after
  · have more := List.count_pos_iff.mpr ends
    exact .inl (by dsimp only; omega)
  · have longer := List.length_pos_iff.mpr grows
    rw [List.count_eq_zero_of_not_mem ends, behindNewline_append ends]
    exact .inr ⟨rfl, by dsimp only; omega⟩

theorem lineIndex_agrees (source : List UInt8) (fits : source.length < 2 ^ 32) (offset : UInt32) :
    (LineIndex.new source).lineNumber offset = byteOffsetToLine source offset.toNat ∧
      (LineIndex.new source).lineCol offset = some (byteOffsetToLineCol source offset.toNat) ∧
      1 ≤ (LineIndex.new source).lineNumber offset ∧
      (LineIndex.new source).lineNumber offset ≤ (LineIndex.new source).lineCount ∧
      ∀ later, offset.toNat < later → later ≤ source.length →
        Prod.Lex (· < ·) (· < ·) (byteOffsetToLineCol source offset.toNat) (byteOffsetToLineCol source later) := by
  have whole : (UInt32.ofNat source.length).toNat = source.length := by
    rw [UInt32.toNat_ofNat', Nat.mod_eq_of_lt fits]
  obtain ⟨before, after, rfl, size⟩ : ∃ before after, source = before ++ after ∧
      before.length = min offset.toNat source.length := by
    refine ⟨source.take (min offset.toNat source.length), _, (List.take_append_drop _ _).symm, ?_⟩
    rw [List.length_take]
    omega
  have front : (before ++ after).take (min offset.toNat (before ++ after).length) = before := by
    rw [← size, List.take_left]
  have clamped : min offset (LineIndex.new (before ++ after)).sourceLen = UInt32.ofNat before.length := by
    change (if offset ≤ UInt32.ofNat (before ++ after).length then offset
      else UInt32.ofNat (before ++ after).length) = _
    apply UInt32.toNat_inj.mp
    rw [UInt32.toNat_ofNat', size, Nat.mod_eq_of_lt (by omega)]
    split
    · next inside =>
      rw [UInt32.le_iff_toNat_le, whole] at inside
      omega
    · next beyond =>
      rw [UInt32.le_iff_toNat_le, whole] at beyond
      omega
  have search : (LineIndex.new (before ++ after)).partitionPoint (UInt32.ofNat before.length) =
      before.count newline + 1 := by
    simp only [LineIndex.partitionPoint, LineIndex.new]
    rw [takeWhile_lineStarts fits, List.length_cons, length_lineStartsFrom_bytes]
  have line : (LineIndex.new (before ++ after)).lineNumber offset = before.count newline + 1 := by
    rw [LineIndex.lineNumber, clamped, search]
  refine ⟨?_, ?_, ?_, ?_, ?_⟩
  · rw [line, byteOffsetToLine, front]
  · have start : (LineIndex.new (before ++ after)).lineStarts[before.count newline]? =
        some (UInt32.ofNat (before.length - behindNewline before)) := by
      simp only [LineIndex.new]
      rw [lineStartsFrom_append, ← List.cons_append, List.getElem?_append_left ?_, lastStart]
      rw [List.length_cons, length_lineStartsFrom_bytes]
      exact Nat.lt_succ_self _
    simp only [LineIndex.lineCol, clamped, search, Nat.add_sub_cancel, start, Option.map_some]
    have column : (UInt32.ofNat before.length -
        UInt32.ofNat (before.length - behindNewline before)).toNat = behindNewline before := by
      have behind := behindNewline_le before
      rw [UInt32.toNat_sub_of_le, UInt32.toNat_ofNat', UInt32.toNat_ofNat',
        Nat.mod_eq_of_lt (by omega), Nat.mod_eq_of_lt (by omega)]
      · omega
      · rw [UInt32.le_iff_toNat_le, UInt32.toNat_ofNat', UInt32.toNat_ofNat',
          Nat.mod_eq_of_lt (by omega), Nat.mod_eq_of_lt (by omega)]
        exact Nat.sub_le _ _
    rw [byteOffsetToLineCol_eq, front, lineColOf, column]
  · exact Nat.le_add_left 1 _
  · rw [line, LineIndex.lineCount, LineIndex.new, List.length_cons, length_lineStartsFrom_bytes, List.count_append]
    omega
  · intro later _ inside
    rw [byteOffsetToLineCol_eq, byteOffsetToLineCol_eq, front]
    have further : (before ++ after).take (min later (before ++ after).length) =
        before ++ after.take (min later (before ++ after).length - before.length) := by
      rw [List.take_append, List.take_of_length_le (by omega)]
    rw [further]
    refine lineColOf_append_lt fun none => ?_
    have lengths := congrArg List.length none
    rw [List.length_take, List.length_nil] at lengths
    rw [List.length_append] at *
    omega

/-- Two lines, the second of them open, at the end of the text. -/
theorem lineIndex_agrees_atEnd : (LineIndex.new [97, 10, 98]).lineCol 3 = some (byteOffsetToLineCol [97, 10, 98] 3) :=
  (lineIndex_agrees [97, 10, 98] (by decide) 3).2.1

end Gruel.Lsp
