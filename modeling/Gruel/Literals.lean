import Gruel.Lexer
import Gruel.Lib.Spelling

/-!
Literals as the formatter writes them and as the lexer reads them.
-/

namespace Gruel

namespace Literals

open CharText Lexer

variable {char letter : Char} {text rest : List Char} {total consumed : Nat} {scalar : UInt32}

def emitEscaped (quote char : Char) : List Char := if char = '\\' then ['\\', '\\']
  else if char = quote then ['\\', quote]
  else if char = '\n' then ['\\', 'n']
  else if char = '\t' then ['\\', 't']
  else if char = '\r' then ['\\', 'r']
  else if char = '\x00' then ['\\', '0']
  else [char]

def emitStringLiteral (value : List Char) : List Char :=
  ['"'] ++ value.flatMap (emitEscaped '"') ++ ['"']

def fromU32 (value : UInt32) : Option Char :=
  if valid : value.isValidChar then some ⟨value, valid⟩ else none

def upperHex (value : UInt32) : List Char := (Nat.toDigits 16 value.toNat).map Char.toUpper

def emitCharLiteral (value : UInt32) : List Char := let body := match fromU32 value with
    | some char => emitEscaped '\'' char
    -- The lexer does not accept such an escape.
    | none => ['\\', 'u', '\x7b'] ++ upperHex value ++ ['\x7d']
  ['\''] ++ body ++ ['\'']

def emitIntLiteral (value : UInt64) : List Char := Spelling.decimal value.toNat

inductive Escape : Char → Char → Prop
  | newline : Escape 'n' '\n'
  | tab : Escape 't' '\t'
  | carriageReturn : Escape 'r' '\r'
  | null : Escape '0' '\x00'
  | backslash : Escape '\\' '\\'
  | double : Escape '"' '"'
  | single : Escape '\'' '\''

inductive StringBody : List Char → List Char → Prop
  | nil : StringBody [] []
  | raw {char : Char} {body value : List Char} (plain : char ∉ ['"', '\\', '\n'])
      (rest : StringBody body value) : StringBody (char :: body) (char :: value)
  -- There is no escape for the other quote.
  | escape {letter char : Char} {body value : List Char} (escapes : Escape letter char)
      (inStrings : letter ≠ '\'') (rest : StringBody body value) :
      StringBody ('\\' :: letter :: body) (char :: value)

inductive CharBody : List Char → Char → Prop
  | raw {char : Char} (plain : char ∉ ['\'', '\\', '\n', '\r']) : CharBody [char] char
  | escape {letter char : Char} (escapes : Escape letter char) : CharBody ['\\', letter] char
  | unicode {hex : List Char} {char : Char} (isHex : ∀ digit ∈ hex, isAsciiHexdigit digit = true)
      (nonempty : hex ≠ []) (short : hex.length ≤ 6) (number : fromHex hex = char.toNat) :
      CharBody (['\\', 'u', '\x7b'] ++ hex ++ ['\x7d']) char

def Denotes (text : List Char) : PieceKind → Prop
  | .token (.string value) => ∃ body, text = ['"'] ++ body ++ ['"'] ∧ StringBody body value
  | .token (.charLit value) =>
    ∃ body char, text = ['\''] ++ body ++ ['\''] ∧ CharBody body char ∧ value = char.val
  | .token (.int value) =>
    text ≠ [] ∧ (∀ digit ∈ text, digit.isDigit = true) ∧ Nat.ofDigitChars 10 text 0 = value.toNat
  | _ => True

def IsAt (source : List Char) (piece : Piece) (text : List Char) : Prop :=
  ∃ before after, source = before ++ text ++ after ∧ byteLength before = piece.start ∧
    byteLength before + byteLength text = piece.stop

theorem Escape.utf8Size (escapes : Escape letter char) : letter.utf8Size = 1 := by
  cases escapes <;> rfl

theorem stringEscape_eq_some : stringEscape letter = some char ↔ Escape letter char ∧ letter ≠ '\'' := by
  constructor
  · intro found
    unfold stringEscape at found
    repeat' split at found
    all_goals cases found
    all_goals subst_vars
    all_goals exact ⟨by constructor, by decide⟩
  · rintro ⟨escapes, inStrings⟩
    cases escapes <;> first | rfl | exact absurd rfl inStrings

theorem charEscape_eq_some : charEscape letter = some char ↔ Escape letter char := by
  constructor
  · intro found
    unfold charEscape at found
    repeat' split at found
    all_goals cases found
    all_goals subst_vars
    all_goals constructor
  · intro escapes
    cases escapes <;> rfl

theorem emitEscaped_cases {quote : Char} (isQuote : Escape quote quote) (char : Char) :
    (∃ letter, emitEscaped quote char = ['\\', letter] ∧ Escape letter char ∧
        (letter = quote ∨ (letter ≠ '"' ∧ letter ≠ '\''))) ∨
      (emitEscaped quote char = [char] ∧ char ∉ [quote, '\\', '\n', '\r']) := by
  unfold emitEscaped
  split
  case isTrue isBackslash =>
      subst isBackslash
      exact .inl ⟨'\\', rfl, .backslash, .inr (by decide)⟩
  case isFalse notBackslash =>
      split
      case isTrue same =>
          subst same
          exact .inl ⟨char, rfl, isQuote, .inl rfl⟩
      case isFalse notQuote =>
          split
          case isTrue newline =>
              subst newline
              exact .inl ⟨'n', rfl, .newline, .inr (by decide)⟩
          case isFalse notNewline =>
              split
              case isTrue tab =>
                  subst tab
                  exact .inl ⟨'t', rfl, .tab, .inr (by decide)⟩
              case isFalse =>
                  split
                  case isTrue carriage =>
                      subst carriage
                      exact .inl ⟨'r', rfl, .carriageReturn, .inr (by decide)⟩
                  case isFalse notCarriage =>
                      split
                      case isTrue null =>
                          subst null
                          exact .inl ⟨'0', rfl, .null, .inr (by decide)⟩
                      case isFalse => exact .inr ⟨rfl, by simp [*]⟩

theorem scanString_quote (rest : List Char) (consumed : Nat) (result : List Char) :
    scanString ('"' :: rest) consumed result = (.ok result, consumed + 1) := by
  rw [scanString.eq_def]
  rfl

theorem scanString_escape (escapes : Escape letter char) (inStrings : letter ≠ '\'')
    (rest : List Char) (consumed : Nat) (result : List Char) :
    scanString ('\\' :: letter :: rest) consumed result = scanString rest (consumed + 2) (result ++ [char]) := by
  rw [scanString.eq_def]
  have decoded := stringEscape_eq_some.2 ⟨escapes, inStrings⟩
  simp only [decoded, if_true]
  rfl

theorem scanString_raw (plain : char ∉ ['"', '\\', '\n']) (rest : List Char) (consumed : Nat) (result : List Char) :
    scanString (char :: rest) consumed result = scanString rest (consumed + char.utf8Size) (result ++ [char]) := by
  simp only [List.mem_cons, List.not_mem_nil, or_false, not_or] at plain
  rw [scanString.eq_def]
  simp [plain.1, plain.2.1, plain.2.2]

theorem scanString_ok {value : List Char} {result : List Char}
    (scanned : scanString text consumed result = (.ok value, total)) :
    ∃ body decoded rest, text = body ++ ['"'] ++ rest ∧ StringBody body decoded ∧
      value = result ++ decoded ∧ total = consumed + byteLength body + 1 := by
  induction text, consumed, result using scanString.induct generalizing value total with
  | case1 consumed result => simp [scanString] at scanned
  | case2 rest consumed result =>
    rw [scanString_quote] at scanned
    cases scanned
    exact ⟨[], [], rest, rfl, .nil, (List.append_nil _).symm, rfl⟩
  | case3 consumed result => simp [scanString] at scanned
  | case4 consumed result letter rest char escapes _ ih =>
    obtain ⟨isEscape, inStrings⟩ := stringEscape_eq_some.1 escapes
    rw [scanString_escape isEscape inStrings] at scanned
    obtain ⟨body, decoded, behind, rfl, isBody, rfl, rfl⟩ := ih scanned
    refine ⟨'\\' :: letter :: body, char :: decoded, behind, rfl, .escape isEscape inStrings isBody, by simp, ?_⟩
    have backslash : '\\'.utf8Size = 1 := rfl
    simp only [byteLength_cons, isEscape.utf8Size, backslash]
    omega
  | case5 consumed result letter rest invalid => simp [scanString, invalid] at scanned
  | case6 rest consumed result =>
    rw [scanString.eq_def] at scanned
    simp at scanned
  | case7 char rest consumed result notQuote notBackslash notNewline ih =>
    have plain : char ∉ ['"', '\\', '\n'] := by simp [*]
    rw [scanString_raw plain] at scanned
    obtain ⟨body, decoded, behind, rfl, isBody, rfl, rfl⟩ := ih scanned
    refine ⟨char :: body, char :: decoded, behind, rfl, .raw plain isBody, by simp, ?_⟩
    simp only [byteLength_cons]
    omega

theorem scanString_emitted (value rest : List Char) (consumed : Nat) (result : List Char) :
    scanString (value.flatMap (emitEscaped '"') ++ '"' :: rest) consumed result =
      (.ok (result ++ value), consumed + byteLength (value.flatMap (emitEscaped '"')) + 1) := by
  induction value generalizing consumed result with
  | nil => simp [scanString_quote]
  | cons char value ih =>
    simp only [List.flatMap_cons, List.append_assoc]
    rcases emitEscaped_cases .double char with
      ⟨letter, written, escapes, quote⟩ | ⟨written, plain⟩
    · have inStrings : letter ≠ '\'' := by
        rcases quote with rfl | ⟨-, other⟩
        · decide
        · exact other
      have backslash : '\\'.utf8Size = 1 := rfl
      rw [written, List.cons_append, List.cons_append, List.nil_append, scanString_escape escapes inStrings, ih]
      simp only [List.append_assoc, List.singleton_append, byteLength_append, byteLength_cons,
        byteLength_nil, escapes.utf8Size, backslash, Prod.mk.injEq, true_and]
      omega
    · have raw : char ∉ ['"', '\\', '\n'] := by
        simp only [List.mem_cons, List.not_mem_nil, or_false, not_or] at plain ⊢
        exact ⟨plain.1, plain.2.1, plain.2.2.1⟩
      rw [written, List.singleton_append, scanString_raw raw, ih]
      simp only [List.append_assoc, List.singleton_append, byteLength_cons, Prod.mk.injEq, true_and]
      omega

theorem scanHex_ok {digits hex : List Char}
    (scanned : scanHex text consumed hex = (some (digits, rest), total)) (short : hex.length ≤ 6) :
    ∃ more, text = more ++ '\x7d' :: rest ∧ digits = hex ++ more ∧ digits.length ≤ 6 ∧
      (∀ digit ∈ more, isAsciiHexdigit digit = true) ∧
      total = consumed + byteLength more + 1 := by
  induction text generalizing consumed hex with
  | nil => simp [scanHex] at scanned
  | cons char text ih =>
    simp only [scanHex] at scanned
    split at scanned
    case isTrue closed =>
        simp only [Prod.mk.injEq, Option.some.injEq] at scanned
        obtain ⟨⟨rfl, rfl⟩, rfl⟩ := scanned
        subst closed
        exact ⟨[], rfl, (List.append_nil hex).symm, short, by simp, rfl⟩
    case isFalse =>
        split at scanned
        case isTrue => simp at scanned
        case isFalse room =>
            split at scanned
            case isTrue isHex =>
                have within : (hex ++ [char]).length ≤ 6 := by
                  simp only [List.length_append, List.length_singleton]
                  omega
                obtain ⟨more, rfl, rfl, length, others, rfl⟩ := ih scanned within
                refine ⟨char :: more, rfl, by simp, length, ?_, ?_⟩
                · exact List.forall_mem_cons.mpr ⟨isHex, others⟩
                · simp only [byteLength_cons]
                  omega
            case isFalse => simp at scanned

theorem exists_char {number : Nat} (scalar : ¬ (0xD800 ≤ number ∧ number ≤ 0xDFFF)) (bounded : ¬ 0x10FFFF < number) :
    ∃ char : Char, char.toNat = number ∧ UInt32.ofNat number = char.val := by
  have valid : number.isValidChar := by
    omega
  refine ⟨Char.ofNatAux number valid, rfl, ?_⟩
  apply UInt32.toNat.inj
  rw [UInt32.toNat_ofNat_of_lt' (by simp [UInt32.size]; omega)]
  rfl

theorem scanUnicodeEscape_ok (scanned : scanUnicodeEscape text consumed = (.ok (scalar, rest), total)) :
    ∃ hex char, text = ['\x7b'] ++ hex ++ ['\x7d'] ++ rest ∧
      CharBody (['\\', 'u', '\x7b'] ++ hex ++ ['\x7d']) char ∧ scalar = char.val ∧
      total = consumed + byteLength hex + 2 := by
  unfold scanUnicodeEscape at scanned
  split at scanned
  case h_1 => simp at scanned
  case h_2 char chars =>
      split at scanned
      case isFalse => simp at scanned
      case isTrue brace =>
          subst brace
          split at scanned
          case h_1 => simp at scanned
          case h_2 hex behind amount found =>
              obtain ⟨_, rfl, isMore, length, isHex, rfl⟩ := scanHex_ok found (Nat.zero_le 6)
              subst isMore
              split at scanned
              case isTrue => simp at scanned
              case isFalse nonempty =>
                  split at scanned
                  case isTrue => simp at scanned
                  case isFalse valid =>
                      obtain ⟨⟨rfl, rfl⟩, rfl⟩ := scanned
                      obtain ⟨char, number, isVal⟩ :=
                        exists_char (not_or.mp valid).1 (not_or.mp valid).2
                      refine ⟨hex, char, by simp, ?_, isVal, by omega⟩
                      exact .unicode isHex nonempty length number.symm

theorem scanCharBody_ok (scanned : scanCharBody text = (.ok (scalar, rest), total)) :
    ∃ body char, text = body ++ rest ∧ CharBody body char ∧ scalar = char.val ∧ total = byteLength body := by
  unfold scanCharBody at scanned
  split at scanned
  case h_1 => simp at scanned
  case h_2 char chars =>
      split at scanned
      case isTrue => simp at scanned
      case isFalse notQuote =>
          split at scanned
          case isTrue => simp at scanned
          case isFalse notNewline =>
              split at scanned
              case isTrue isBackslash =>
                  subst isBackslash
                  split at scanned
                  case h_1 => simp at scanned
                  case h_2 letter behind =>
                      split at scanned
                      case h_1 decoded found =>
                          obtain ⟨⟨rfl, rfl⟩, rfl⟩ := scanned
                          have escapes := charEscape_eq_some.1 found
                          refine ⟨['\\', letter], decoded, rfl, .escape escapes, rfl, ?_⟩
                          simp only [byteLength_cons, byteLength_nil, escapes.utf8Size]
                          rfl
                      case h_2 =>
                          split at scanned
                          case isTrue isUnicode =>
                              subst isUnicode
                              obtain ⟨_, decoded, rfl, isBody, rfl, rfl⟩ :=
                                scanUnicodeEscape_ok scanned
                              refine ⟨_, decoded, rfl, isBody, rfl, ?_⟩
                              simp only [byteLength_append, byteLength_cons, byteLength_nil]
                              have sizes : '\\'.utf8Size = 1 ∧ 'u'.utf8Size = 1 ∧
                                  '\x7b'.utf8Size = 1 ∧ '\x7d'.utf8Size = 1 :=
                                ⟨rfl, rfl, rfl, rfl⟩
                              omega
                          case isFalse => simp at scanned
              case isFalse notBackslash =>
                  obtain ⟨⟨rfl, rfl⟩, rfl⟩ := scanned
                  refine ⟨[char], char, rfl, .raw ?_, rfl, by simp⟩
                  simp only [List.mem_cons, List.not_mem_nil, or_false, not_or] at notNewline ⊢
                  exact ⟨notQuote, notBackslash, notNewline⟩

theorem processCharFromQuote_ok (processed : processCharFromQuote text = (.ok scalar, total)) :
    ∃ body char rest, text = body ++ ['\''] ++ rest ∧ CharBody body char ∧ scalar = char.val ∧
      total = byteLength body + 1 := by
  unfold processCharFromQuote at processed
  split at processed
  case h_1 => simp at processed
  case h_2 value chars consumed scanned =>
      obtain ⟨body, char, rfl, isBody, rfl, rfl⟩ := scanCharBody_ok scanned
      split at processed
      case h_1 => simp at processed
      case h_2 close rest =>
          split at processed
          case isTrue closes =>
              subst closes
              obtain ⟨rfl, rfl⟩ := processed
              exact ⟨body, char, rest, by simp, isBody, rfl, rfl⟩
          case isFalse =>
              split at processed
              case isTrue => simp at processed
              case isFalse => split at processed <;> simp at processed

theorem processCharFromQuote_emitted (char : Char) (rest : List Char) :
    processCharFromQuote (emitEscaped '\'' char ++ '\'' :: rest) =
      (.ok char.val, byteLength (emitEscaped '\'' char) + 1) := by
  rcases emitEscaped_cases .single char with ⟨_, written, escapes, -⟩ | ⟨written, plain⟩
  · have decoded := charEscape_eq_some.2 escapes
    have backslash : '\\'.utf8Size = 1 := rfl
    rw [written]
    simp [processCharFromQuote, scanCharBody, decoded, escapes.utf8Size, backslash]
  · simp only [List.mem_cons, List.not_mem_nil, or_false, not_or] at plain
    rw [written]
    simp [processCharFromQuote, scanCharBody, plain]

theorem fromDecimal_eq (digits : List Char) : fromDecimal digits = Nat.ofDigitChars 10 digits 0 := by
  have fold : ∀ start, digits.foldl (fun value char => value * 10 + (char.toNat - '0'.toNat)) start =
      Nat.ofDigitChars 10 digits start := by
    induction digits with
    | nil => simp
    | cons char digits ih =>
      intro start
      rw [List.foldl_cons, Nat.ofDigitChars_cons, ih, Nat.mul_comm]
  exact fold 0

theorem parseU64_eq_some {digits : List Char} {value : UInt64}
    (parsed : parseU64 digits = some value) : Nat.ofDigitChars 10 digits 0 = value.toNat := by
  unfold parseU64 at parsed
  split at parsed
  case isTrue fits =>
      cases parsed
      rw [UInt64.toNat_ofNat_of_lt' fits, fromDecimal_eq]
  case isFalse => cases parsed

theorem decimal_ne_nil (number : Nat) : Spelling.decimal number ≠ [] := by
  unfold Spelling.decimal
  exact Nat.toDigits_ne_nil

theorem parseU64_emitted (value : UInt64) : parseU64 (emitIntLiteral value) = some value := by
  have number : fromDecimal (emitIntLiteral value) = value.toNat := by
    unfold emitIntLiteral Spelling.decimal
    rw [fromDecimal_eq, Nat.ofDigitChars_ten_toDigits]
  unfold parseU64
  rw [number, if_pos value.toNat_lt, UInt64.ofNat_toNat]

section RoundTrips

variable {parseF64 : ParseF64}
variable {quote : Char} {body after : List Char} {kind : PieceKind}

theorem step_quoted {rest : List Char} {pattern : Pattern}
    (picks : Picks (quote :: (body ++ quote :: rest)) pattern 1)
    (called : callback parseF64 pattern [quote] (body ++ quote :: rest) =
      (.ok kind, byteLength body + 1)) (ascii : quote.utf8Size = 1) :
    step parseF64 ([quote] ++ body ++ [quote] ++ rest) = .piece kind ([quote] ++ body ++ [quote]) rest := by
  have shape : [quote] ++ body ++ [quote] ++ rest = quote :: (body ++ quote :: rest) := by simp
  have closing : byteLength (body ++ [quote]) = byteLength body + 1 := by
    simp [ascii]
  have behind : body ++ quote :: rest = (body ++ [quote]) ++ rest := by simp
  rw [← closing] at called
  rw [shape, step_of_picks picks called behind]
  simp

theorem step_string (value rest : List Char) : step parseF64 (emitStringLiteral value ++ rest) =
      .piece (.token (.string value)) (emitStringLiteral value) rest := by
  refine step_quoted (picks_string _) ?_ rfl
  simp only [callback, processStringFromQuote, scanString_emitted, Nat.zero_add, List.nil_append]
  rfl

theorem fromU32_val (char : Char) : fromU32 char.val = some char := by
  unfold fromU32
  rw [dif_pos char.valid]

theorem step_charLit (value : Char) (rest : List Char) : step parseF64 (emitCharLiteral value.val ++ rest) =
      .piece (.token (.charLit value.val)) (emitCharLiteral value.val) rest := by
  simp only [emitCharLiteral, fromU32_val]
  refine step_quoted (picks_charLit _) ?_ rfl
  simp only [callback, processCharFromQuote_emitted]
  rfl

theorem step_int (value : UInt64) : step parseF64 (emitIntLiteral value) =
      .piece (.token (.int value)) (emitIntLiteral value) [] := by
  have picks : Picks (emitIntLiteral value) .int (emitIntLiteral value).length :=
    picks_int (decimal_ne_nil _) fun char member => Spelling.isDigit_of_mem_decimal member
  have called : callback parseF64 .int (emitIntLiteral value) [] = (.ok (.token (.int value)), byteLength []) := by
    simp only [callback, parseU64_emitted]
    rfl
  have stepped := @step_of_picks parseF64 _ [] [] _ _ _ picks
    (by rw [List.take_length, List.drop_length, called]) (by simp)
  simpa using stepped

theorem taken_quoted {more rest : List Char} (ascii : quote.utf8Size = 1)
    (scanned : after = body ++ [quote] ++ rest) {behind : List Char} (cut : after = more ++ behind)
    (measured : byteLength more = byteLength body + 1) : more = body ++ [quote] := by
  refine (append_inj_of_byteLength (cut.symm.trans scanned) ?_).1
  simp [measured, ascii]

theorem denotes_of_step {text rest : List Char}
    (stepped : step parseF64 text = .piece kind after rest) : Denotes after kind := by
  obtain ⟨pattern, length, _, _, picks, called, behind, measured, rfl⟩ :=
    step_eq_piece stepped
  cases pattern with
  | string =>
    obtain ⟨rfl, remainder, rfl⟩ := literally_eq_some picks.longest
    simp only [callback, processStringFromQuote, List.drop_left] at called behind
    generalize scanned : scanString remainder 0 [] = outcome at called
    obtain ⟨result, total⟩ := outcome
    cases result with
    | error error => cases called
    | ok value =>
      cases called
      obtain ⟨body, _, others, cut, isBody, rfl, rfl⟩ := scanString_ok scanned
      rw [taken_quoted rfl cut behind (by omega)]
      exact ⟨body, by simp, isBody⟩
  | charLit =>
    obtain ⟨rfl, remainder, rfl⟩ := literally_eq_some picks.longest
    simp only [callback, List.drop_left] at called behind
    generalize processed : processCharFromQuote remainder = outcome at called
    obtain ⟨result, total⟩ := outcome
    cases result with
    | error error => cases called
    | ok value =>
      cases called
      obtain ⟨body, char, others, cut, isBody, rfl, rfl⟩ := processCharFromQuote_ok processed
      rw [taken_quoted rfl cut behind measured]
      exact ⟨body, char, by simp, isBody, rfl⟩
  | int =>
    obtain ⟨rfl, positive⟩ := atLeastOne_eq_some picks.longest
    simp only [callback, take_runLength] at called ⊢
    cases parsed : parseU64 (text.takeWhile Char.isDigit) with
    | none =>
      rw [parsed] at called
      cases called
    | some value =>
      rw [parsed] at called
      cases called
      obtain rfl := byteLength_eq_zero measured
      rw [List.append_nil]
      have number := parseU64_eq_some parsed
      refine ⟨List.ne_nil_of_length_pos positive, fun digit member => ?_, number⟩
      exact List.mem_takeWhile_imp member
  | skip | lineDoc | fixed | ident =>
    cases called
    trivial
  | fraction | exponent =>
    simp only [callback] at called
    cases parsed : parseF64 (text.take length) with
    | none =>
      rw [parsed] at called
      cases called
    | some bits =>
      rw [parsed] at called
      cases called
      trivial
  | atImport =>
    simp only [callback] at called
    split at called
    · cases called
      trivial
    · cases called

/-- Every literal that is written is read back as one token of its value that covers the text,
whatever stands behind a closing quote; and every literal token of a source has the value that
its text denotes. -/
theorem literals_survive (parseF64 : ParseF64) : (∀ value, pieces parseF64 (emitStringLiteral value) =
        .ok [⟨.token (.string value), 0, byteLength (emitStringLiteral value)⟩]) ∧
      (∀ value : Char, pieces parseF64 (emitCharLiteral value.val) =
        .ok [⟨.token (.charLit value.val), 0, byteLength (emitCharLiteral value.val)⟩]) ∧
      (∀ value, pieces parseF64 (emitIntLiteral value) =
        .ok [⟨.token (.int value), 0, byteLength (emitIntLiteral value)⟩]) ∧
      (∀ value rest, step parseF64 (emitStringLiteral value ++ rest) =
        .piece (.token (.string value)) (emitStringLiteral value) rest) ∧
      (∀ (value : Char) rest, step parseF64 (emitCharLiteral value.val ++ rest) =
        .piece (.token (.charLit value.val)) (emitCharLiteral value.val) rest) ∧
      ∀ source found, pieces parseF64 source = .ok found → ∀ piece ∈ found,
        ∃ text, IsAt source piece text ∧ Denotes text piece.kind := by
  refine ⟨fun value => ?_, fun value => ?_, fun value => ?_, step_string, step_charLit, ?_⟩
  · exact pieces_of_step (by simp [emitStringLiteral]) (by simpa using step_string value [])
  · exact pieces_of_step (by simp [emitCharLiteral]) (by simpa using step_charLit value [])
  · exact pieces_of_step (decimal_ne_nil _) (step_int value)
  · intro source found accepted piece member
    obtain ⟨before, taken, after, rfl, start, stop, stepped⟩ :=
      (runs_of_run accepted).stepped member
    rw [Nat.zero_add] at start
    refine ⟨taken, ⟨before, after, rfl, start.symm, ?_⟩, denotes_of_step stepped⟩
    rw [stop, start]

/-- A quote, a newline and a character beyond ASCII. -/
theorem quoted_survive : pieces (fun _ => none) (emitStringLiteral ['"', '\n', 'é']) =
        .ok [⟨.token (.string ['"', '\n', 'é']), 0, 8⟩] ∧
      pieces (fun _ => none) (emitCharLiteral '\''.val) = .ok [⟨.token (.charLit '\''.val), 0, 4⟩] := by
  obtain ⟨strings, chars, -⟩ := literals_survive fun _ => none
  exact ⟨strings ['"', '\n', 'é'], chars '\''⟩

end RoundTrips

end Literals

end Gruel
