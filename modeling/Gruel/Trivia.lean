import Gruel.TriviaCore
import Gruel.Literals

/-!
The formatter's scan stays in step with the lexer: every piece of the lexer is passed as a
whole, and only comments with two slashes are recorded.
-/

namespace Gruel

namespace Trivia

open CharText
open Lexer (Piece PieceKind Picks Pattern Runs restOfLine runLength Plain)

variable {byte : UInt8} {ascii : Char}

variable {char : Char} {i : Nat} {body value : List Char}

theorem not_mem_utf8EncodeChar (isAscii : byte.toNat < 128) (encodes : ascii.toNat = byte.toNat)
    (other : char ≠ ascii) : byte ∉ String.utf8EncodeChar char := by
  intro member
  have same := toNat_of_mem_utf8EncodeChar isAscii member
  exact other (Char.ext (UInt32.toNat.inj (same.trans encodes.symm)))

theorem utf8EncodeChar_cons (char : Char) : ∃ first rest, String.utf8EncodeChar char = first :: rest := by
  refine List.exists_cons_of_ne_nil fun empty => ?_
  have size := congrArg List.length empty
  have positive := char.utf8Size_pos
  simp only [String.length_utf8EncodeChar, List.length_nil] at size
  omega

theorem takeWhile_ne_bytes (isAscii : byte.toNat < 128)
    (encodes : String.utf8EncodeChar ascii = [byte]) (text : List Char) :
    (bytes text).takeWhile (· != byte) = bytes (text.takeWhile (· != ascii)) := by
  have number : ascii.toNat = byte.toNat :=
    toNat_of_mem_utf8EncodeChar isAscii (by rw [encodes]; exact List.mem_singleton_self _)
  induction text with
  | nil => rfl
  | cons char text ih =>
    by_cases same : char = ascii
    · subst same
      simp [encodes]
    · have absent := not_mem_utf8EncodeChar isAscii number same
      have all : ∀ other ∈ String.utf8EncodeChar char, (other != byte) = true := by
        intro other member
        rw [bne_iff_ne]
        rintro rfl
        exact absent member
      rw [bytes_cons, List.takeWhile_append_of_pos all, ih,
        List.takeWhile_cons_of_pos (by simpa using same), bytes_cons]

theorem takeWhile_eq_bytes (isAscii : byte.toNat < 128)
    (encodes : String.utf8EncodeChar ascii = [byte]) (text : List Char) :
    (bytes text).takeWhile (· == byte) = bytes (text.takeWhile (· == ascii)) := by
  have number : ascii.toNat = byte.toNat :=
    toNat_of_mem_utf8EncodeChar isAscii (by rw [encodes]; exact List.mem_singleton_self _)
  induction text with
  | nil => rfl
  | cons char text ih =>
    by_cases same : char = ascii
    · subst same
      simp [encodes, ih]
    · have absent := not_mem_utf8EncodeChar isAscii number same
      obtain ⟨first, _, shape⟩ := utf8EncodeChar_cons char
      have differs : (first == byte) = false := by
        rw [beq_eq_false_iff_ne]
        rintro rfl
        exact absent (by rw [shape]; exact (.head _))
      rw [bytes_cons, shape, List.cons_append, List.takeWhile_cons_of_neg (by simp [differs]),
        List.takeWhile_cons_of_neg (by simpa using same)]
      rfl

def recorded (entries : List TriviaEntry) : List (Nat × Nat) := entries.filterMap fun entry =>
    match entry.kind with
    | .comment => some (entry.start.toNat, entry.stop.toNat)
    | .blank => none

structure InOrder (entries : List TriviaEntry) : Prop where
  nonempty : ∀ entry ∈ entries, entry.start < entry.stop
  disjoint : entries.Pairwise fun entry later => entry.stop ≤ later.start

/-- A comment with exactly two slashes among the pieces. -/
def commentSpan (piece : Piece) : Option (Nat × Nat) := match piece.kind with
  | .skipped .lineComment | .skipped .bareComment => some (piece.start, piece.stop)
  | _ => none

def commentSpans (pieces : List Piece) : List (Nat × Nat) := pieces.filterMap commentSpan

structure Tracks (i : Nat) (scan : Scan) (comments : List (Nat × Nat)) : Prop where
  recorded : recorded scan.entries = comments
  inOrder : InOrder scan.entries
  behind : ∀ entry ∈ scan.entries, entry.stop.toNat ≤ i
  noRun : scan.blankRunStart = none → scan.newlinesInRun = 0
  run : ∀ start, scan.blankRunStart = some start →
    start.toNat + scan.newlinesInRun.toNat ≤ i ∧ ∀ entry ∈ scan.entries, entry.stop ≤ start

theorem tracks_start : Tracks 0 {} [] where
  recorded := rfl
  inOrder := ⟨by simp, .nil⟩
  behind := by simp
  noRun := fun _ => rfl
  run := by simp

theorem InOrder.push {entries : List TriviaEntry} (inOrder : InOrder entries) {entry : TriviaEntry}
    (nonempty : entry.start < entry.stop) (behind : ∀ other ∈ entries, other.stop ≤ entry.start) :
    InOrder (entries ++ [entry]) where
  nonempty := by
    intro other member
    rcases List.mem_append.mp member with old | new
    · exact inOrder.nonempty other old
    · rw [List.mem_singleton.mp new]
      exact nonempty
  disjoint := by
    refine List.pairwise_append.mpr ⟨inOrder.disjoint, List.pairwise_singleton _ _, ?_⟩
    intro other old new member
    rw [List.mem_singleton.mp member]
    exact behind other old

namespace Tracks

variable {i : Nat} {scan : Scan} {comments : List (Nat × Nat)}

theorem mono (tracks : Tracks i scan comments) {j : Nat} (later : i ≤ j) : Tracks j scan comments where
  recorded := tracks.recorded
  inOrder := tracks.inOrder
  behind := fun entry member => Nat.le_trans (tracks.behind entry member) later
  noRun := tracks.noRun
  run := fun start isStart =>
    ⟨Nat.le_trans (tracks.run start isStart).1 later, (tracks.run start isStart).2⟩

theorem flush (tracks : Tracks i scan comments) (small : i < 2 ^ 32) : Tracks i scan.flush comments := by
  have reset : ∀ entries, Trivia.recorded entries = comments → InOrder entries →
      (∀ entry ∈ entries, entry.stop.toNat ≤ i) → Tracks i ⟨entries, none, 0⟩ comments := by
    intro entries isRecorded inOrder behind
    exact ⟨isRecorded, inOrder, behind, fun _ => rfl, by simp⟩
  unfold Scan.flush flushBlank
  split
  case isFalse => exact reset _ tracks.recorded tracks.inOrder tracks.behind
  case isTrue two =>
      cases isStart : scan.blankRunStart with
      | none => exact reset _ tracks.recorded tracks.inOrder tracks.behind
      | some start =>
        obtain ⟨inside, behind⟩ := tracks.run start isStart
        have newlines : 2 ≤ scan.newlinesInRun.toNat := two
        have stop : (start + scan.newlinesInRun).toNat = start.toNat + scan.newlinesInRun.toNat := by
          rw [UInt32.toNat_add, Nat.mod_eq_of_lt (by omega)]
        refine reset _ ?_ (tracks.inOrder.push ?_ behind) ?_
        · simpa [Trivia.recorded] using tracks.recorded
        · change start < start + scan.newlinesInRun
          rw [UInt32.lt_iff_toNat_lt, stop]
          omega
        · intro entry member
          rcases List.mem_append.mp member with old | new
          · exact tracks.behind entry old
          · rw [List.mem_singleton.mp new, stop]
            exact inside

theorem comment (tracks : Tracks i scan comments) {length : Nat} (positive : 0 < length)
    (small : i + length < 2 ^ 32) :
    Tracks (i + length) (scan.flush.push ⟨.comment, UInt32.ofNat i, UInt32.ofNat (i + length)⟩)
      (comments ++ [(i, i + length)]) := by
  have flushed := tracks.flush (by omega)
  have start : (UInt32.ofNat i).toNat = i :=
    UInt32.toNat_ofNat_of_lt' (by simp [UInt32.size]; omega)
  have stop : (UInt32.ofNat (i + length)).toNat = i + length :=
    UInt32.toNat_ofNat_of_lt' (by simp [UInt32.size]; omega)
  refine ⟨?_, flushed.inOrder.push ?_ ?_, ?_, fun _ => rfl, ?_⟩
  · have old := flushed.recorded
    rw [Trivia.recorded] at old
    rw [Trivia.recorded, Scan.push, List.filterMap_append, old]
    simp only [List.filterMap_cons, List.filterMap_nil, start, stop]
  · rw [UInt32.lt_iff_toNat_lt, start, stop]
    omega
  · intro entry member
    rw [UInt32.le_iff_toNat_le, start]
    exact flushed.behind entry member
  · intro entry member
    rcases List.mem_append.mp member with old | new
    · exact Nat.le_trans (flushed.behind entry old) (Nat.le_add_right i length)
    · rw [List.mem_singleton.mp new, stop]
  · intro start isStart
    cases isStart

theorem newline (tracks : Tracks i scan comments) (small : i + 1 < 2 ^ 32) : Tracks (i + 1) { scan with
        blankRunStart :=
          if scan.newlinesInRun = 0 then some (UInt32.ofNat i) else scan.blankRunStart
        newlinesInRun := scan.newlinesInRun + 1 } comments := by
  have here : (UInt32.ofNat i).toNat = i := UInt32.toNat_ofNat_of_lt' (by simp [UInt32.size]; omega)
  have later := tracks.mono (Nat.le_succ i)
  refine ⟨later.recorded, later.inOrder, later.behind, ?_, ?_⟩
  · intro isNone
    split at isNone
    case isTrue => cases isNone
    case isFalse running => exact absurd (tracks.noRun isNone) running
  · intro start isStart
    split at isStart
    case isTrue none =>
        cases isStart
        refine ⟨?_, fun entry member => ?_⟩
        · simp [here, none]
        · rw [UInt32.le_iff_toNat_le, here]
          exact tracks.behind entry member
    case isFalse running =>
        obtain ⟨_, behind⟩ := tracks.run start isStart
        refine ⟨?_, behind⟩
        have one : (1 : UInt32).toNat = 1 := rfl
        rw [UInt32.toNat_add, one, Nat.mod_eq_of_lt (by omega)]
        omega

end Tracks

variable {rest passed : List UInt8} {text : List Char}
variable {byte : UInt8} {added : List (Nat × Nat)}

theorem scanFrom_skip (passed rest : List UInt8) (i : Nat) (scan : Scan) :
    scanFrom (passed ++ rest) passed.length i scan = scanFrom rest 0 (i + passed.length) scan := by
  induction passed generalizing i with
  | nil => rfl
  | cons byte passed ih =>
    simp only [List.cons_append, List.length_cons, scanFrom]
    rw [ih, Nat.add_assoc, Nat.add_comm 1]

theorem scanFrom_turn {scan after : Scan}
    (turned : turn byte (passed ++ rest) i scan = (passed.length + 1, after)) :
    scanFrom (byte :: (passed ++ rest)) 0 i scan = scanFrom rest 0 (i + (passed.length + 1)) after := by
  simp only [scanFrom, turned, Nat.add_sub_cancel]
  rw [scanFrom_skip, Nat.add_assoc, Nat.add_comm 1]

def Passes (passed rest : List UInt8) (i : Nat) (added : List (Nat × Nat)) : Prop :=
  ∀ scan comments, Tracks i scan comments → i + passed.length < 2 ^ 32 →
    ∃ after, scanFrom (passed ++ rest) 0 i scan = scanFrom rest 0 (i + passed.length) after ∧
      Tracks (i + passed.length) after (comments ++ added)

theorem passes_nil (rest : List UInt8) (i : Nat) : Passes [] rest i [] := by
  intro scan _ tracks _
  refine ⟨scan, rfl, ?_⟩
  rw [List.append_nil]
  exact tracks

theorem Passes.append {first second : List UInt8} {more : List (Nat × Nat)}
    (here : Passes first (second ++ rest) i added)
    (behind : Passes second rest (i + first.length) more) :
    Passes (first ++ second) rest i (added ++ more) := by
  intro scan comments tracks small
  simp only [List.length_append] at small
  obtain ⟨between, reached, tracksBetween⟩ := here scan comments tracks (by omega)
  obtain ⟨after, further, tracksAfter⟩ := behind between _ tracksBetween (by omega)
  refine ⟨after, ?_, ?_⟩
  · rw [List.append_assoc, reached, further, List.length_append, Nat.add_assoc]
  · rw [List.length_append, ← Nat.add_assoc, ← List.append_assoc]
    exact tracksAfter

theorem Passes.of_turn
    (turned : ∀ scan comments, Tracks i scan comments → i + (passed.length + 1) < 2 ^ 32 → ∃ after, turn byte (passed ++ rest) i scan = (passed.length + 1, after) ∧ Tracks (i + (passed.length + 1)) after (comments ++ added)) :
    Passes (byte :: passed) rest i added := by
  intro scan comments tracks small
  obtain ⟨after, isTurn, tracksAfter⟩ := turned scan comments tracks small
  exact ⟨after, scanFrom_turn isTurn, tracksAfter⟩

theorem passes_byte (notComment : byte = slash → rest.head? ≠ some slash)
    (notString : byte ≠ doubleQuote) (notChar : byte ≠ singleQuote) : Passes [byte] rest i [] := by
  refine .of_turn fun scan comments tracks small => ?_
  simp only [List.length_nil, Nat.zero_add, List.nil_append, List.append_nil] at small ⊢
  have alone : ¬ (byte = slash ∧ rest.head? = some slash) := fun both =>
    notComment both.1 both.2
  unfold turn
  rw [if_neg alone]
  split
  case isTrue => exact ⟨_, rfl, tracks.newline small⟩
  case isFalse =>
      split
      case isTrue => exact ⟨_, rfl, tracks.mono (Nat.le_succ i)⟩
      case isFalse =>
          exact ⟨_, rfl, (tracks.flush (by omega)).mono (Nat.le_succ i)⟩

theorem passes_plainBytes
    (plain : ∀ byte ∈ passed, byte ≠ slash ∧ byte ≠ doubleQuote ∧ byte ≠ singleQuote) :
    Passes passed rest i [] := by
  induction passed generalizing i with
  | nil => exact passes_nil rest i
  | cons byte passed ih =>
    obtain ⟨first, others⟩ := List.forall_mem_cons.mp plain
    have here : Passes [byte] (passed ++ rest) i [] :=
      passes_byte (fun isSlash => absurd isSlash first.1) first.2.1 first.2.2
    exact here.append (ih others)

theorem passes_plain (plain : ∀ char ∈ text, Plain char) (rest : List UInt8) (i : Nat) :
    Passes (bytes text) rest i [] := by
  refine passes_plainBytes fun byte member => ?_
  obtain ⟨char, inText, inChar⟩ := List.mem_flatMap.mp member
  obtain ⟨notSlash, notDouble, notSingle⟩ := plain char inText
  refine ⟨?_, ?_, ?_⟩
  · rintro rfl
    exact not_mem_utf8EncodeChar (by decide) rfl notSlash inChar
  · rintro rfl
    exact not_mem_utf8EncodeChar (by decide) rfl notDouble inChar
  · rintro rfl
    exact not_mem_utf8EncodeChar (by decide) rfl notSingle inChar

theorem utf8EncodeChar_slash : String.utf8EncodeChar '/' = [slash] := by decide

theorem utf8EncodeChar_newline : String.utf8EncodeChar '\n' = [newline] := by decide

theorem head?_of_bytes (isSlash : (bytes text).head? = some slash) : text.head? = some '/' := by
  cases text with
  | nil => cases isSlash
  | cons char text =>
    obtain ⟨_, _, shape⟩ := utf8EncodeChar_cons char
    rw [bytes_cons, shape, List.cons_append, List.head?_cons] at isSlash
    cases isSlash
    by_cases same : char = '/'
    · rw [same, List.head?_cons]
    · have absent : slash ∉ String.utf8EncodeChar char :=
        not_mem_utf8EncodeChar (by decide) rfl same
      rw [shape] at absent
      exact absurd (.head _) absent

theorem byteLength_slashes (text : List Char) :
    byteLength (text.takeWhile (· == '/')) = runLength (· == '/') text := by
  unfold runLength
  induction text with
  | nil => rfl
  | cons char text ih =>
    by_cases isSlash : char = '/'
    · subst isSlash
      simp only [List.takeWhile_cons, beq_self_eq_true, if_true, byteLength_cons, ih, List.length_cons]
      exact Nat.add_comm _ _
    · simp [isSlash]

theorem slashCount_eq_two_iff (small : byteLength (restOfLine text) < 2 ^ 32) :
    slashCount (bytes text) = 2 ↔ runLength (· == '/') text = 2 := by
  have slashes : ((bytes text).takeWhile (· == slash)).length = runLength (· == '/') text := by
    rw [takeWhile_eq_bytes (by decide) utf8EncodeChar_slash, length_bytes, byteLength_slashes]
  have bounded : runLength (· == '/') text < 2 ^ 32 := by
    have inLine := Lexer.slashes_le_restOfLine text
    have inBytes := length_le_byteLength (restOfLine text)
    omega
  unfold slashCount
  rw [slashes]
  constructor
  · intro same
    have number := congrArg BitVec.toNat same
    rwa [BitVec.toNat_ofNat, Nat.mod_eq_of_lt bounded] at number
  · intro two
    rw [two]
    rfl

theorem bytes_line (text : List Char) :
    bytes (restOfLine text) ++ bytes (text.dropWhile (· != '\n')) = bytes text := by
  rw [← bytes_append, restOfLine, List.takeWhile_append_dropWhile]

theorem passes_slashes {more : List Char}: Passes (bytes (restOfLine ('/' :: '/' :: more)))
      (bytes (('/' :: '/' :: more).dropWhile (· != '\n'))) i
      (if runLength (· == '/') ('/' :: '/' :: more) = 2 then
        [(i, i + byteLength (restOfLine ('/' :: '/' :: more)))] else []) := by
  generalize isText : '/' :: '/' :: more = text
  have shape : bytes (restOfLine text) = slash :: bytes ('/' :: restOfLine more) := by
    rw [← isText]
    rfl
  have whole : bytes text = slash :: bytes ('/' :: more) := by
    rw [← isText]
    rfl
  have joined : bytes ('/' :: restOfLine more) ++ bytes (text.dropWhile (· != '\n')) = bytes ('/' :: more) := by
    have lines := bytes_line text
    rw [shape, whole, List.cons_append] at lines
    exact (List.cons.inj lines).2
  have length : (bytes ('/' :: restOfLine more)).length + 1 = byteLength (restOfLine text) := by
    rw [← length_bytes, shape, List.length_cons]
  rw [shape]
  refine .of_turn fun scan comments tracks small => ?_
  rw [length] at small ⊢
  have line : (slash :: bytes ('/' :: more)).takeWhile (· != newline) = bytes (restOfLine text) := by
    rw [← whole, takeWhile_ne_bytes (by decide) utf8EncodeChar_newline]
    rfl
  have opens : slash = slash ∧ (bytes ('/' :: more)).head? = some slash := ⟨rfl, rfl⟩
  have positive : 0 < byteLength (restOfLine text) := by omega
  have inRange : byteLength (restOfLine text) < 2 ^ 32 := by omega
  have slashes := slashCount_eq_two_iff inRange
  rw [whole] at slashes
  unfold turn
  rw [joined, if_pos opens, line]
  by_cases two : runLength (· == '/') text = 2
  · rw [if_pos (slashes.mpr two), if_pos two]
    exact ⟨_, rfl, tracks.comment positive small⟩
  · rw [if_neg fun isTwo => two (slashes.mp isTwo), if_neg two, List.append_nil]
    exact ⟨_, rfl, tracks.mono (Nat.le_add_right i _)⟩

section Quoted

variable {byte : UInt8}

theorem skipQuoted_close (rest : List UInt8) : skipQuoted byte (byte :: rest) = 1 := by
  rw [skipQuoted.eq_def]
  simp

theorem skipQuoted_escape (notBackslash : byte ≠ backslash) (escaped : UInt8) (rest : List UInt8) :
    skipQuoted byte (backslash :: escaped :: rest) = 2 + skipQuoted byte rest := by
  rw [skipQuoted.eq_def]
  simp [Ne.symm notBackslash]

theorem skipQuoted_plain {passed : List UInt8}
    (plain : ∀ other ∈ passed, other ≠ byte ∧ other ≠ backslash ∧ other ≠ newline)
    (rest : List UInt8) :
    skipQuoted byte (passed ++ rest) = passed.length + skipQuoted byte rest := by
  induction passed with
  | nil => simp
  | cons first passed ih =>
    obtain ⟨head, others⟩ := List.forall_mem_cons.mp plain
    have further := ih others
    rw [List.cons_append, skipQuoted.eq_def, List.length_cons]
    simp only [head.1, head.2.1, head.2.2, if_false]
    split
    case h_1 ended =>
        obtain ⟨rfl, rfl⟩ := List.append_eq_nil_iff.mp ended
        rfl
    case h_2 escaped behind more =>
        rw [← more, further]
        omega

theorem skipQuoted_text (isAscii : byte.toNat < 128) {quote : Char}
    (encodes : quote.toNat = byte.toNat) {text : List Char}
    (plain : ∀ char ∈ text, char ≠ quote ∧ char ≠ '\\' ∧ char ≠ '\n') (rest : List UInt8) :
    skipQuoted byte (bytes text ++ rest) = byteLength text + skipQuoted byte rest := by
  refine skipQuoted_plain (fun other member => ?_) rest
  obtain ⟨char, inText, inChar⟩ := List.mem_flatMap.mp member
  obtain ⟨notQuote, notBackslash, notNewline⟩ := plain char inText
  refine ⟨?_, ?_, ?_⟩
  · rintro rfl
    exact not_mem_utf8EncodeChar isAscii encodes notQuote inChar
  · rintro rfl
    exact not_mem_utf8EncodeChar (by decide) rfl notBackslash inChar
  · rintro rfl
    exact not_mem_utf8EncodeChar (by decide) rfl notNewline inChar

theorem skipQuoted_letter (notBackslash : byte ≠ backslash) {letter : Char}
    (single : letter.utf8Size = 1) (rest : List UInt8) :
    skipQuoted byte (bytes ['\\', letter] ++ rest) = byteLength ['\\', letter] + skipQuoted byte rest := by
  obtain ⟨escaped, shape⟩ : ∃ escaped, String.utf8EncodeChar letter = [escaped] := by
    refine List.length_eq_one_iff.mp ?_
    rw [String.length_utf8EncodeChar, single]
  have isBackslash : String.utf8EncodeChar '\\' = [backslash] := by decide
  have one : '\\'.utf8Size = 1 := rfl
  simp [bytes_cons, bytes_nil, isBackslash, shape, skipQuoted_escape notBackslash,
    byteLength_cons, byteLength_nil, single, one]

theorem skipString_body (isBody : Literals.StringBody body value) (rest : List UInt8) :
    skipString (bytes body ++ doubleQuote :: rest) = byteLength body + 1 := by
  unfold skipString
  induction isBody with
  | nil => exact skipQuoted_close rest
  | @raw char body value plain inner ih =>
    have here : ∀ other ∈ [char], other ≠ '"' ∧ other ≠ '\\' ∧ other ≠ '\n' := by
      simpa using plain
    rw [← List.singleton_append, bytes_append, List.append_assoc,
      skipQuoted_text (by decide) rfl here, ih, byteLength_append, Nat.add_assoc]
  | @escape letter char body value escapes inStrings inner ih =>
    have shape : '\\' :: letter :: body = ['\\', letter] ++ body := rfl
    rw [shape, bytes_append, List.append_assoc,
      skipQuoted_letter (by decide) escapes.utf8Size, ih, byteLength_append, Nat.add_assoc]

theorem skipChar_body (isBody : Literals.CharBody body char) (rest : List UInt8) :
    skipChar (bytes body ++ singleQuote :: rest) = byteLength body + 1 := by
  unfold skipChar
  cases isBody with
  | raw plain =>
    have here : ∀ other ∈ [char], other ≠ '\'' ∧ other ≠ '\\' ∧ other ≠ '\n' := by
      simp only [List.mem_cons, List.not_mem_nil, or_false, not_or] at plain
      simpa using ⟨plain.1, plain.2.1, plain.2.2.1⟩
    rw [skipQuoted_text (by decide) rfl here, skipQuoted_close]
  | escape escapes =>
    rw [skipQuoted_letter (by decide) escapes.utf8Size, skipQuoted_close]
  | @unicode hex char isHex =>
    have shape : ['\\', 'u', '\x7b'] ++ hex ++ ['\x7d'] = ['\\', 'u'] ++ (['\x7b'] ++ hex ++ ['\x7d']) := by simp
    have inside : ∀ other ∈ ['\x7b'] ++ hex ++ ['\x7d'], other ≠ '\'' ∧ other ≠ '\\' ∧ other ≠ '\n' := by
      intro other member
      rcases List.mem_append.mp member with front | closing
      · rcases List.mem_append.mp front with opening | digit
        · rw [List.mem_singleton.mp opening]
          decide
        · have accepted := isHex other digit
          refine ⟨?_, ?_, ?_⟩ <;> rintro rfl <;> revert accepted <;> decide
      · rw [List.mem_singleton.mp closing]
        decide
    rw [shape, bytes_append, List.append_assoc, skipQuoted_letter (by decide) rfl,
      skipQuoted_text (by decide) rfl inside, skipQuoted_close]
    simp only [byteLength_append]
    omega

end Quoted

variable {body value : List Char}

theorem bytes_string (body : List Char) :
    bytes (['"'] ++ body ++ ['"']) = doubleQuote :: (bytes body ++ [doubleQuote]) := by
  have quote : String.utf8EncodeChar '"' = [doubleQuote] := by decide
  simp [quote]

theorem turn_string (isBody : Literals.StringBody body value) (rest : List UInt8) (i : Nat) (scan : Scan) :
    turn doubleQuote (bytes body ++ [doubleQuote] ++ rest) i scan =
      ((bytes body ++ [doubleQuote]).length + 1, scan.flush) := by
  have skipped := skipString_body isBody rest
  have length : (bytes body ++ [doubleQuote]).length = byteLength body + 1 := by
    simp [length_bytes]
  rw [length, List.append_assoc, List.singleton_append]
  unfold turn
  rw [if_neg fun both => absurd both.1 (by decide), if_neg (by decide), if_neg (by decide),
    if_pos rfl, skipped, Nat.add_comm]

theorem passes_string (isBody : Literals.StringBody body value) (rest : List UInt8) (i : Nat) :
    Passes (bytes (['"'] ++ body ++ ['"'])) rest i [] := by
  rw [bytes_string]
  refine .of_turn fun scan comments tracks small => ?_
  rw [List.append_nil]
  exact ⟨scan.flush, turn_string isBody rest i scan, (tracks.flush (by omega)).mono (Nat.le_add_right i _)⟩

theorem passes_char (isBody : Literals.CharBody body char) (rest : List UInt8) (i : Nat) :
    Passes (bytes (['\''] ++ body ++ ['\''])) rest i [] := by
  have quote : String.utf8EncodeChar '\'' = [singleQuote] := by decide
  have shape : bytes (['\''] ++ body ++ ['\'']) = singleQuote :: (bytes body ++ [singleQuote]) := by
    simp [quote]
  rw [shape]
  refine .of_turn fun scan comments tracks small => ?_
  rw [List.append_nil]
  refine ⟨scan.flush, ?_, (tracks.flush (by omega)).mono (Nat.le_add_right i _)⟩
  have skipped := skipChar_body isBody rest
  have length : (bytes body ++ [singleQuote]).length = byteLength body + 1 := by
    simp [length_bytes]
  rw [length, List.append_assoc, List.singleton_append]
  unfold turn
  rw [if_neg fun both => absurd both.1 (by decide), if_neg (by decide), if_neg (by decide),
    if_neg (by decide), if_pos rfl, skipped, Nat.add_comm]

section Pieces

variable {parseF64 : Lexer.ParseF64}
variable {text taken rest : List Char} {kind : PieceKind} {pieces : List Piece}
variable {pattern : Pattern} {slice remainder : List Char} {consumed offset : Nat}

theorem take_restOfLine (text : List Char) : text.take (restOfLine text).length = restOfLine text :=
  Lexer.take_runLength (· != '\n') text

theorem drop_restOfLine (text : List Char) : text.drop (restOfLine text).length = text.dropWhile (· != '\n') := by
  have whole : restOfLine text ++ text.dropWhile (· != '\n') = text :=
    List.takeWhile_append_dropWhile
  have cut := congrArg (List.drop (restOfLine text).length) whole
  rw [List.drop_left] at cut
  exact cut.symm

theorem passes_line {more : List Char} (opens : text = '/' :: '/' :: more)
    (isTaken : taken = restOfLine text) (joined : text = taken ++ rest) (i : Nat) :
    Passes (bytes taken) (bytes rest) i
      (if runLength (· == '/') text = 2 then [(i, i + byteLength taken)] else []) := by
  have behind : rest = text.dropWhile (· != '\n') := by
    rw [← drop_restOfLine, ← isTaken]
    exact (List.append_cancel_left ((congrArg (taken ++ ·)
      (show text.drop taken.length = rest by rw [joined, List.drop_left])) )).symm
  rw [isTaken, behind, opens]
  exact passes_slashes

theorem token_of_map {α ε : Type} {result : Except ε α} {make : α → Lexer.TokenKind}
    (mapped : (result.map fun value => PieceKind.token (make value)) = .ok kind) :
    ∃ value, kind = .token (make value) := by
  cases result with
  | error error => cases mapped
  | ok value =>
    cases mapped
    exact ⟨_, rfl⟩

theorem token_of_callback (called : Lexer.callback parseF64 pattern slice remainder = (.ok kind, consumed))
    (token : ∀ skipped, pattern ≠ .skip skipped) : ∃ token, kind = .token token := by
  cases pattern with
  | skip skipped => exact absurd rfl (token skipped)
  | lineDoc | fixed | ident =>
    cases called
    exact ⟨_, rfl⟩
  | fraction | exponent | int | string | charLit =>
    obtain ⟨_, isToken⟩ := token_of_map (Prod.mk.inj called).1
    exact ⟨_, isToken⟩
  | atImport =>
    simp only [Lexer.callback, Prod.mk.injEq] at called
    split at called
    case isTrue =>
        cases called.1
        exact ⟨_, rfl⟩
    case isFalse => cases called.1

theorem consumed_plain (called : Lexer.callback parseF64 pattern slice remainder = (.ok kind, consumed))
    (plain : pattern.TakesPlain) : consumed = 0 := by
  cases pattern with
  | skip | fixed | fraction | exponent | int | ident | atImport => exact (Prod.mk.inj called).2.symm
  | lineDoc | string | charLit => exact plain.elim

theorem runLength_slash (text : List Char) : runLength (· == '/') ('/' :: text) = runLength (· == '/') text + 1 := by
  simp [runLength]

theorem runLength_other (other : char ≠ '/') (text : List Char) :
    runLength (· == '/') (char :: text) = 0 := by
  simp [runLength, other]

theorem two_slashes (many : 2 ≤ runLength (· == '/') text) : ∃ more, text = '/' :: '/' :: more := by
  match text with
  | [] => cases many
  | [char] =>
    have short := (List.takeWhile_sublist (l := [char]) (· == '/')).length_le
    exact absurd (Nat.le_trans many short) (by simp)
  | first :: second :: more =>
    by_cases isFirst : first = '/'
    · subst isFirst
      rw [runLength_slash] at many
      by_cases isSecond : second = '/'
      · subst isSecond
        exact ⟨more, rfl⟩
      · rw [runLength_other isSecond] at many
        omega
    · rw [runLength_other isFirst] at many
      omega

theorem passes_doc (many : 3 ≤ runLength (· == '/') text) (isTaken : taken = restOfLine text)
    (joined : text = taken ++ rest) (i : Nat) : Passes (bytes taken) (bytes rest) i [] := by
  obtain ⟨_, opens⟩ := two_slashes (Nat.le_of_succ_le many)
  have passed := passes_line opens isTaken joined i
  rwa [if_neg (by omega)] at passed

theorem passes_comment (two : runLength (· == '/') text = 2) (isTaken : taken = restOfLine text)
    (joined : text = taken ++ rest) (i : Nat) :
    Passes (bytes taken) (bytes rest) i [(i, i + byteLength taken)] := by
  obtain ⟨_, opens⟩ := two_slashes (Nat.le_of_eq two.symm)
  have passed := passes_line opens isTaken joined i
  rwa [if_pos two] at passed

def Skipped (text taken : List Char) : Lexer.SkipPattern → Prop
  | .blanks => ∀ char ∈ taken, Plain char
  | .slashRun => taken = restOfLine text ∧ 4 ≤ runLength (· == '/') text
  | .lineComment | .bareComment => taken = restOfLine text ∧ runLength (· == '/') text = 2

theorem skipped_of_step {skipped : Lexer.SkipPattern}
    (stepped : Lexer.step parseF64 text = .piece (.skipped skipped) taken rest) :
    Skipped text taken skipped := by
  obtain ⟨pattern, _, _, _, picks, called, -, measured, isTaken⟩ :=
    Lexer.step_eq_piece stepped
  cases pattern with
  | skip pattern =>
    cases called
    obtain rfl := byteLength_eq_zero measured
    rw [List.append_nil] at isTaken
    cases skipped with
    | blanks =>
      rw [isTaken]
      have blanks : (Pattern.skip .blanks).TakesPlain := trivial
      exact Lexer.plain_of_longest blanks picks.longest
    | slashRun =>
      obtain ⟨rfl, many⟩ := picks.slashRun
      rw [take_restOfLine] at isTaken
      exact ⟨isTaken, many⟩
    | lineComment =>
      obtain ⟨rfl, _, after, shape, notSlash, -⟩ := picks.lineComment
      rw [take_restOfLine] at isTaken
      refine ⟨isTaken, ?_⟩
      rw [shape, runLength_slash, runLength_slash, runLength_other notSlash]
    | bareComment =>
      obtain ⟨rfl, after, shape, ended⟩ := picks.bareComment
      have line : restOfLine text = ['/', '/'] := by
        rw [shape]
        exact congrArg (['/', '/'] ++ ·) ended
      have slashes := Lexer.slashes_le_restOfLine after
      rw [ended, List.length_nil, Nat.le_zero] at slashes
      refine ⟨?_, ?_⟩
      · rw [isTaken, line, shape]
        rfl
      · rw [shape, runLength_slash, runLength_slash, slashes]
  | _ =>
    obtain ⟨_, isToken⟩ := token_of_callback called (by simp)
    cases isToken

theorem passes_step (stepped : Lexer.step parseF64 text = .piece kind taken rest) (i : Nat) :
    Passes (bytes taken) (bytes rest) i (commentSpans [⟨kind, i, i + byteLength taken⟩]) := by
  have joined := Lexer.step_spec stepped
  cases kind with
  | skipped skipped =>
    have found := skipped_of_step stepped
    cases skipped with
    | blanks => exact passes_plain found (bytes rest) i
    | slashRun => exact passes_doc (Nat.le_of_succ_le found.2) found.1 joined i
    | lineComment | bareComment => exact passes_comment found.2 found.1 joined i
  | token token =>
    have denotes := Literals.denotes_of_step stepped
    obtain ⟨pattern, _, more, _, picks, called, behind, measured, isTaken⟩ :=
      Lexer.step_eq_piece stepped
    by_cases plain : pattern.TakesPlain
    · have nothing : more = [] :=
        byteLength_eq_zero (measured.trans (consumed_plain called plain))
      rw [isTaken, nothing, List.append_nil]
      exact passes_plain (Lexer.plain_of_longest plain picks.longest) _ i
    · cases pattern with
      | skip skipped => cases called
      | lineDoc =>
        obtain ⟨rfl, after, shape, -⟩ := picks.lineDoc
        cases called
        have remainder : text.drop 3 = after := by
          rw [shape]
          rfl
        rw [remainder] at behind measured
        have line : restOfLine after ++ after.dropWhile (· != '\n') = after :=
          List.takeWhile_append_dropWhile
        have body : more = restOfLine after :=
          (append_inj_of_byteLength (behind.symm.trans line.symm) measured).1
        refine passes_doc ?_ ?_ joined i
        · rw [shape, runLength_slash, runLength_slash, runLength_slash]
          omega
        · rw [isTaken, body, shape]
          rfl
      | fixed fixed =>
        cases called
        obtain rfl := byteLength_eq_zero measured
        obtain ⟨rfl, after, rfl, alone⟩ := picks.slash (not_not.mp plain)
        obtain rfl : after = rest := behind
        rw [isTaken]
        exact passes_byte (fun _ doubled => alone (head?_of_bytes doubled)) (by decide) (by decide)
      | string =>
        obtain ⟨value, isToken⟩ := token_of_map (Prod.mk.inj called).1
        cases isToken
        obtain ⟨body, rfl, isBody⟩ := denotes
        exact passes_string isBody (bytes rest) i
      | charLit =>
        obtain ⟨value, isToken⟩ := token_of_map (Prod.mk.inj called).1
        cases isToken
        obtain ⟨body, _, rfl, isBody, -⟩ := denotes
        exact passes_char isBody (bytes rest) i
      | fraction | exponent | int | ident | atImport => exact absurd trivial plain

theorem passes_runs (runs : Runs parseF64 text offset pieces) :
    Passes (bytes text) [] offset (commentSpans pieces) := by
  induction runs with
  | done => exact passes_nil [] _
  | @piece text taken rest kind offset pieces stepped further ih =>
    have here := passes_step stepped offset
    have shape : commentSpans (⟨kind, offset, offset + byteLength taken⟩ :: pieces) =
        commentSpans [⟨kind, offset, offset + byteLength taken⟩] ++ commentSpans pieces :=
      List.filterMap_append (l := [_])
    rw [Lexer.step_spec stepped, bytes_append, shape]
    exact .append (by rwa [List.append_nil]) ih

theorem runs_inOrder (runs : Runs parseF64 text offset pieces) : (∀ piece ∈ pieces, offset ≤ piece.start) ∧
      pieces.Pairwise fun piece later => piece.stop ≤ later.start := by
  induction runs with
  | done => exact ⟨by simp, .nil⟩
  | @piece text taken rest kind offset pieces stepped further ih =>
    obtain ⟨behind, ordered⟩ := ih
    refine ⟨?_, List.pairwise_cons.mpr ⟨behind, ordered⟩⟩
    intro piece member
    rcases List.mem_cons.mp member with rfl | later
    · exact Nat.le_refl _
    · exact Nat.le_trans (Nat.le_add_right _ _) (behind piece later)

/-- What the lexer skips from exactly two slashes to the end of their line. -/
def IsLineComment (source : List Char) (piece : Piece) : Prop :=
  (∃ pattern, piece.kind = .skipped pattern) ∧ ∃ before taken after, source = before ++ taken ++ after ∧
      byteLength before = piece.start ∧ byteLength before + byteLength taken = piece.stop ∧
      runLength (· == '/') taken = 2 ∧ taken = restOfLine (taken ++ after)

theorem runLength_restOfLine (text : List Char) :
    runLength (· == '/') (restOfLine text) = runLength (· == '/') text := by
  induction text with
  | nil => rfl
  | cons char text ih =>
    by_cases isSlash : char = '/'
    · subst isSlash
      have shape : restOfLine ('/' :: text) = '/' :: restOfLine text := rfl
      rw [shape, runLength_slash, runLength_slash, ih]
    · rw [runLength_other isSlash]
      by_cases isNewline : char = '\n'
      · subst isNewline
        rfl
      · have shape : restOfLine (char :: text) = char :: restOfLine text := by
          simp [restOfLine, isNewline]
        rw [shape, runLength_other isSlash]

theorem runLength_plain (plain : ∀ char ∈ text, Plain char) : runLength (· == '/') text = 0 := by
  cases text with
  | nil => rfl
  | cons char text => exact runLength_other (plain char (.head _)).1 text

theorem isSome_commentSpan {source : List Char} (runs : Runs parseF64 source 0 pieces)
    {piece : Piece} (member : piece ∈ pieces) :
    (commentSpan piece).isSome ↔ IsLineComment source piece := by
  obtain ⟨before, taken, after, joined, start, _, stepped⟩ := runs.stepped member
  rw [Nat.zero_add] at start
  have isComment : IsLineComment source piece ↔ (∃ skipped, piece.kind = .skipped skipped) ∧
      runLength (· == '/') taken = 2 ∧ taken = restOfLine (taken ++ after) := by
    constructor
    · rintro ⟨isSkipped, front, text, rest, same, first, _, slashes, line⟩
      have halves : front ++ (text ++ rest) = before ++ (taken ++ after) := by
        rw [← List.append_assoc, ← same, joined, List.append_assoc]
      obtain ⟨rfl, behind⟩ := append_inj_of_byteLength halves (first.trans start)
      obtain ⟨rfl, rfl⟩ := append_inj_of_byteLength behind (by omega)
      exact ⟨isSkipped, slashes, line⟩
    · rintro ⟨isSkipped, slashes, line⟩
      exact ⟨isSkipped, before, taken, after, joined, start.symm, by omega, slashes, line⟩
  rw [isComment, commentSpan]
  cases isKind : piece.kind with
  | token token => simp
  | skipped skipped =>
    rw [isKind] at stepped
    have found := skipped_of_step stepped
    have slashes (line : taken = restOfLine (taken ++ after)) :
        runLength (· == '/') taken = runLength (· == '/') (taken ++ after) := by
      rw [← runLength_restOfLine (taken ++ after), ← line]
    cases skipped with
    | blanks =>
      have none := runLength_plain found
      simp [none]
    | slashRun =>
      have many := found.2
      rw [← slashes found.1] at many
      have notTwo : runLength (· == '/') taken ≠ 2 := by omega
      simp [notTwo]
    | lineComment | bareComment =>
      have two := found.2
      rw [← slashes found.1] at two
      exact ⟨fun _ => ⟨⟨_, rfl⟩, two, found.1⟩, fun _ => rfl⟩

end Pieces

theorem exists_commentSpan {pieces : List Piece} {comment : Nat × Nat} (isComment : comment ∈ commentSpans pieces) :
    ∃ piece ∈ pieces, comment = (piece.start, piece.stop) ∧ ∃ skipped, piece.kind = .skipped skipped := by
  obtain ⟨piece, member, span⟩ := List.mem_filterMap.mp isComment
  unfold commentSpan at span
  refine ⟨piece, member, ?_⟩
  split at span
  case h_1 isKind | h_2 isKind =>
      cases span
      exact ⟨rfl, _, isKind⟩
  case h_3 => cases span

/-- The comments that are recorded are those that the lexer skips, in their order, and none of
them lies in a token, for sources whose offsets fit the entries. -/
theorem scan_exact (parseF64 : Lexer.ParseF64) (source : List Char) (found : List Piece)
    (accepted : Lexer.pieces parseF64 source = .ok found) (fits : byteLength source < 2 ^ 32) :
    recorded (scan source) = commentSpans found ∧
      (∀ piece ∈ found, (commentSpan piece).isSome ↔ IsLineComment source piece) ∧
      (∀ piece ∈ found, ∀ token, piece.kind = .token token →
        ∀ comment ∈ recorded (scan source), comment.2 ≤ piece.start ∨ piece.stop ≤ comment.1) ∧
      InOrder (scan source) := by
  have runs := Lexer.runs_of_run accepted
  have inRange : 0 + (bytes source).length < 2 ^ 32 := by
    rw [Nat.zero_add]
    exact fits
  obtain ⟨after, reached, tracks⟩ := passes_runs runs {} [] tracks_start inRange
  have scanned : scan source = after.flush.entries := by
    rw [List.append_nil] at reached
    rw [scan, reached]
    rfl
  have flushed := tracks.flush inRange
  rw [scanned, flushed.recorded, List.nil_append]
  refine ⟨rfl, fun piece => isSome_commentSpan runs, ?_, flushed.inOrder⟩
  intro piece member token isToken comment isComment
  obtain ⟨other, isOther, rfl, _, isSkipped⟩ := exists_commentSpan isComment
  have apart : ∀ first ∈ found, ∀ second ∈ found, first.kind ≠ second.kind →
      first.stop ≤ second.start ∨ second.stop ≤ first.start := by
    refine fun first isFirst second isSecond => ?_
    have ordered := (runs_inOrder runs).2
    exact List.Pairwise.forall_of_forall_of_flip (R := fun first second : Piece => first.kind ≠ second.kind →
        first.stop ≤ second.start ∨ second.stop ≤ first.start)
      (fun piece _ different => absurd rfl different)
      (ordered.imp fun before _ => .inl before)
      (ordered.imp fun before _ => .inr before) isFirst isSecond
  refine apart other isOther piece member ?_
  rw [isToken, isSkipped]
  exact nofun

theorem scan_string_comment_spans : recorded (scan ['"', '/', '/', '"', '/', '/']) = [(4, 6)] := by
  have accepted : Lexer.pieces (fun _ => none) ['"', '/', '/', '"', '/', '/'] =
      .ok [⟨.token (.string ['/', '/']), 0, 4⟩, ⟨.skipped .bareComment, 4, 6⟩] := by
    rfl
  exact (scan_exact (fun _ => none) _ _ accepted (by decide)).1

section Counterexample

variable {parseF64 : Lexer.ParseF64}

theorem stringBody_replicate (count : Nat) :
    Literals.StringBody (List.replicate count 'a') (List.replicate count 'a') := by
  induction count with
  | zero => exact .nil
  | succ count ih => exact .raw (by decide) ih

theorem emitStringLiteral_replicate (count : Nat) : Literals.emitStringLiteral (List.replicate count 'a') =
      ['"'] ++ List.replicate count 'a' ++ ['"'] := by
  have raw : (List.replicate count 'a').flatMap (Literals.emitEscaped '"') = List.replicate count 'a' := by
    induction count with
    | zero => rfl
    | succ count ih => rw [List.replicate_succ, List.flatMap_cons, ih]; rfl
  rw [Literals.emitStringLiteral, raw]

theorem byteLength_replicate (count : Nat) : byteLength (['"'] ++ List.replicate count 'a' ++ ['"']) = count + 2 := by
  induction count with
  | zero => rfl
  | succ count ih =>
    simp only [byteLength_append, List.replicate_succ, byteLength_cons] at ih ⊢
    have ascii : 'a'.utf8Size = 1 := rfl
    omega

def stringThenComment (body : List Char) : List Char := ['"'] ++ body ++ ['"'] ++ ['/', '/']

theorem pieces_stringThenComment
    (string : Lexer.step parseF64 (stringThenComment body) = .piece (.token (.string value)) (['"'] ++ body ++ ['"']) ['/', '/']) :
    Lexer.pieces parseF64 (stringThenComment body) =
      .ok [⟨.token (.string value), 0, byteLength (['"'] ++ body ++ ['"'])⟩,
        ⟨.skipped .bareComment, byteLength (['"'] ++ body ++ ['"']), byteLength (['"'] ++ body ++ ['"']) + 2⟩] := by
  have comment : Lexer.step parseF64 ['/', '/'] = .piece (.skipped .bareComment) ['/', '/'] [] := rfl
  have fuel : (stringThenComment body).length = body.length + 2 + 1 + 1 := by
    simp [stringThenComment]
  rw [Lexer.pieces, fuel]
  have behind := fun offset => @Lexer.run_of_step parseF64 _ offset _ _ _ _ _ (by simp) comment
    (Lexer.run_nil (body.length + 2) _)
  have ran := Lexer.run_of_step (by simp [stringThenComment]) string (behind (0 + _))
  rwa [Nat.zero_add] at ran

theorem recorded_stringThenComment (isBody : Literals.StringBody body value) :
    recorded (scan (stringThenComment body)) = [((UInt32.ofNat (byteLength (['"'] ++ body ++ ['"']))).toNat,
        (UInt32.ofNat (byteLength (['"'] ++ body ++ ['"']) + 2)).toNat)] := by
  have length : (bytes body ++ [doubleQuote]).length + 1 = byteLength (['"'] ++ body ++ ['"']) := by
    rw [← length_bytes, bytes_string, List.length_cons]
  have shape : bytes (stringThenComment body) = doubleQuote :: (bytes body ++ [doubleQuote] ++ [slash, slash]) := by
    rw [stringThenComment, bytes_append, bytes_string, List.cons_append]
    rfl
  rw [scan, shape, scanFrom_turn (turn_string isBody [slash, slash] 0 {}), length, Nat.zero_add]
  rfl

/-- Behind the offsets that fit, entries start over. -/
theorem scan_not_exact : ¬ ∀ (parseF64 : Lexer.ParseF64) (source : List Char) (found : List Piece),
      Lexer.pieces parseF64 source = .ok found → recorded (scan source) = commentSpans found := by
  intro exact
  obtain ⟨count, large⟩ : ∃ count, count + 2 = 2 ^ 32 := ⟨2 ^ 32 - 2, rfl⟩
  have length := (byteLength_replicate count).trans large
  have string := @Literals.step_string (fun _ => none) (List.replicate count 'a') ['/', '/']
  rw [emitStringLiteral_replicate] at string
  have same := exact _ _ _ (pieces_stringThenComment string)
  rw [recorded_stringThenComment (stringBody_replicate count), length] at same
  have start : (UInt32.ofNat (2 ^ 32)).toNat = 2 ^ 32 := (Prod.mk.inj (List.cons.inj same).1).1
  revert start
  decide

end Counterexample

end Trivia

end Gruel
