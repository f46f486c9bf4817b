import Gruel.Lib.LongestMatch
import Gruel.Lib.CharText

/-!
The lexer: patterns that compete by the longest match, and hand-written scanners that say how many
more bytes they consumed.
-/

namespace Gruel

namespace Lexer

open CharText

inductive LexError
  | unexpectedCharacter
  | invalidInteger
  | invalidFloat
  | invalidStringEscape
  | unterminatedString
  | emptyCharLit
  | unterminatedCharLit
  | multiCharLit
  | invalidCharEscape
  | invalidUnicodeEscape
  deriving DecidableEq, Repr

def stringEscape (char : Char) : Option Char := if char = '\\' then some '\\' else if char = '"' then some '"'
  else if char = 'n' then some '\n'
  else if char = 't' then some '\t'
  else if char = 'r' then some '\r'
  else if char = '0' then some '\x00'
  else none

def scanString : List Char → Nat → List Char → Except LexError (List Char) × Nat
  | [], consumed, _ => (.error .unterminatedString, consumed)
  | char :: chars, consumed, result =>
    if char = '"' then (.ok result, consumed + 1)
    else if char = '\\' then
      match chars with
      | [] => (.error .unterminatedString, consumed + char.utf8Size)
      | escape :: chars =>
        match stringEscape escape with
        | some decoded => scanString chars (consumed + char.utf8Size + 1) (result ++ [decoded])
        | none => (.error .invalidStringEscape, consumed + char.utf8Size + escape.utf8Size)
    -- The newline itself is left to the next token.
    else if char = '\n' then (.error .unterminatedString, consumed)
    else scanString chars (consumed + char.utf8Size) (result ++ [char])

attribute [grind =] scanString

def processStringFromQuote (remainder : List Char) : Except LexError (List Char) × Nat :=
  scanString remainder 0 []

def isAsciiHexdigit (char : Char) : Bool :=
  char.isDigit || ('a' ≤ char && char ≤ 'f') || ('A' ≤ char && char ≤ 'F')

def hexDigit (char : Char) : Nat := if char.isDigit then char.toNat - '0'.toNat
  else if 'a' ≤ char then char.toNat - 'a'.toNat + 10
  else char.toNat - 'A'.toNat + 10

/-- `from_str_radix` in base 16. -/
def fromHex (hex : List Char) : Nat := hex.foldl (fun value char => value * 16 + hexDigit char) 0

/-- The digits of `\u{…}` up to the closing brace, what follows it, and the bytes consumed. -/
def scanHex : List Char → Nat → List Char → Option (List Char × List Char) × Nat
  | [], consumed, _ => (none, consumed)
  | char :: chars, consumed, hex =>
    if char = '}' then (some (hex, chars), consumed + char.utf8Size)
    else if 6 ≤ hex.length then (none, consumed + char.utf8Size)
    else if isAsciiHexdigit char then scanHex chars (consumed + char.utf8Size) (hex ++ [char])
    else (none, consumed + char.utf8Size)

/-- The part of `process_char_from_quote` after `\u`. -/
def scanUnicodeEscape (chars : List Char) (consumed : Nat) : Except LexError (UInt32 × List Char) × Nat :=
  match chars with
  | [] => (.error .invalidUnicodeEscape, consumed)
  | char :: chars =>
    if char = '{' then
      match scanHex chars (consumed + 1) [] with
      | (none, consumed) => (.error .invalidUnicodeEscape, consumed)
      | (some (hex, chars), consumed) =>
        if hex = [] then (.error .invalidUnicodeEscape, consumed)
        else if (0xD800 ≤ fromHex hex ∧ fromHex hex ≤ 0xDFFF) ∨ 0x10FFFF < fromHex hex then
          (.error .invalidUnicodeEscape, consumed)
        else (.ok (UInt32.ofNat (fromHex hex), chars), consumed)
    else (.error .invalidUnicodeEscape, consumed)

def charEscape (char : Char) : Option Char := if char = 'n' then some '\n' else if char = 'r' then some '\r'
  else if char = 't' then some '\t'
  else if char = '\\' then some '\\'
  else if char = '\'' then some '\''
  else if char = '"' then some '"'
  else if char = '0' then some '\x00'
  else none

def scanCharBody (remainder : List Char) : Except LexError (UInt32 × List Char) × Nat :=
  match remainder with
  | [] => (.error .unterminatedCharLit, 0)
  | char :: chars =>
    if char = '\'' then (.error .emptyCharLit, 1)
    else if char = '\n' ∨ char = '\r' then (.error .unterminatedCharLit, 0)
    else if char = '\\' then
      match chars with
      | [] => (.error .unterminatedCharLit, 1)
      | escape :: chars =>
        match charEscape escape with
        | some decoded => (.ok (decoded.val, chars), 2)
        | none =>
          if escape = 'u' then scanUnicodeEscape chars 2
          else (.error .invalidCharEscape, 1)
    else (.ok (char.val, chars), char.utf8Size)

def scanMultiChar : List Char → Nat → Bool × Nat
  | [], extra => (false, extra)
  | char :: chars, extra =>
    if char = '\n' ∨ char = '\r' then (false, extra)
    else if char = '\'' then (true, extra + char.utf8Size)
    else scanMultiChar chars (extra + char.utf8Size)

def processCharFromQuote (remainder : List Char) : Except LexError UInt32 × Nat :=
  match scanCharBody remainder with
  | (.error error, consumed) => (.error error, consumed)
  | (.ok (scalar, chars), consumed) =>
    match chars with
    | [] => (.error .unterminatedCharLit, consumed)
    | close :: _ =>
      if close = '\'' then (.ok scalar, consumed + 1)
      else if close = '\n' ∨ close = '\r' then (.error .unterminatedCharLit, consumed)
      else
        match scanMultiChar chars 0 with
        | (true, extra) => (.error .multiCharLit, consumed + extra)
        | (false, extra) => (.error .unterminatedCharLit, consumed + extra)

def stripSpace : List Char → List Char
  | [] => []
  | char :: chars => if char = ' ' then chars else char :: chars

def restOfLine (text : List Char) : List Char := text.takeWhile (· != '\n')

def processLineDoc (remainder : List Char) : List Char × Nat :=
  (stripSpace (restOfLine remainder), byteLength (restOfLine remainder))

def isIdentChar (char : Char) : Bool := char.isAlphanum || char == '_'

/-- `@import` must end at a word boundary. -/
def atImportCallback (remainder : List Char) : Bool := match remainder with
  | [] => true
  | char :: _ => !isIdentChar char

def fromDecimal (digits : List Char) : Nat :=
  digits.foldl (fun value char => value * 10 + (char.toNat - '0'.toNat)) 0

def parseU64 (digits : List Char) : Option UInt64 :=
  if fromDecimal digits < 2 ^ 64 then some (UInt64.ofNat (fromDecimal digits)) else none

def fixedTokens : List String :=
  [ "fn", "let", "mut", "if", "else", "match", "while", "for", "in", "loop", "break", "continue",
    "return", "true", "false", "struct", "enum", "interface", "self", "Self", "comptime_unroll",
    "comptime", "derive", "pub", "const", "checked", "link_extern", "static_link_extern",
    "i8", "i16", "i32", "i64", "isize", "u8", "u16", "u32", "u64", "usize", "f16", "f32", "f64",
    "bool", "char", "_", "==", "!=", "<=", ">=", "&&", "||", "<<", ">>", "->", "=>", "::",
    "+", "-", "*", "/", "%", "=", "!", "<", ">", "&", "|", "^", "~",
    "(", ")", "\x7b", "\x7d", "[", "]", ":", ";", ",", ".", "@" ]

structure FixedToken where
  text : String
  listed : text ∈ fixedTokens

inductive TokenKind
  | lineDoc (body : List Char)
  | fixed (token : FixedToken)
  | float (bits : UInt64)
  | int (value : UInt64)
  | string (value : List Char)
  | charLit (value : UInt32)
  | ident (name : List Char)
  | atImport

inductive SkipPattern
  | blanks
  -- Four slashes or more.
  | slashRun
  | lineComment
  | bareComment
  deriving DecidableEq, Repr

inductive Pattern
  | skip (pattern : SkipPattern)
  | lineDoc
  | fixed (token : FixedToken)
  | fraction
  | exponent
  | int
  | string
  | charLit
  | ident
  | atImport

def literally (expected text : List Char) : Option Nat :=
  if expected.isPrefixOf text then some expected.length else none

def runLength (accepts : Char → Bool) (text : List Char) : Nat := (text.takeWhile accepts).length

def atLeastOne (length : Nat) : Option Nat := if length = 0 then none else some length

/-- `[ \t\n\r\f]` -/
def isBlank (char : Char) : Bool :=
  char == ' ' || char == '\t' || char == '\n' || char == '\r' || char == '\x0c'

/-- `[+-]?[0-9]+` -/
def signedDigits (text : List Char) : Option Nat := match text with
  | [] => none
  | char :: chars =>
    if char = '+' ∨ char = '-' then
      (atLeastOne (runLength Char.isDigit chars)).map (1 + ·)
    else atLeastOne (runLength Char.isDigit text)

/-- `[eE][+-]?[0-9]+` -/
def exponentPart (text : List Char) : Option Nat := match text with
  | [] => none
  | char :: chars =>
    if char = 'e' ∨ char = 'E' then (signedDigits chars).map (1 + ·) else none

/-- `\.[0-9]+([eE][+-]?[0-9]+)?` -/
def fractionPart (text : List Char) : Option Nat := match text with
  | [] => none
  | char :: chars =>
    if char = '.' then
      (atLeastOne (runLength Char.isDigit chars)).map fun digits =>
        1 + digits + (exponentPart (chars.drop digits)).getD 0
    else none

def isIdentStart (char : Char) : Bool := char.isAlpha || char == '_'

def SkipPattern.longest (pattern : SkipPattern) (text : List Char) : Option Nat :=
  match pattern with
  | .blanks => atLeastOne (runLength isBlank text)
  | .slashRun =>
    if 4 ≤ runLength (· == '/') text then some (restOfLine text).length else none
  | .lineComment =>
    match literally ['/', '/'] text, text.drop 2 with
    | some _, char :: _ =>
      if char = '/' ∨ char = '\n' then none else some (restOfLine text).length
    | _, _ => none
  | .bareComment => literally ['/', '/'] text

def Pattern.longest (pattern : Pattern) (text : List Char) : Option Nat := match pattern with
  | .skip pattern => pattern.longest text
  | .lineDoc => literally ['/', '/', '/'] text
  | .fixed token => literally token.text.toList text
  | .fraction => do
      let digits ← atLeastOne (runLength Char.isDigit text)
      let fraction ← fractionPart (text.drop digits)
      some (digits + fraction)
  | .exponent => do
      let digits ← atLeastOne (runLength Char.isDigit text)
      let exponent ← exponentPart (text.drop digits)
      some (digits + exponent)
  | .int => atLeastOne (runLength Char.isDigit text)
  | .string => literally ['"'] text
  | .charLit => literally ['\''] text
  | .ident =>
    match text with
    | [] => none
    | char :: chars => if isIdentStart char then some (1 + runLength isIdentChar chars) else none
  | .atImport => literally "@import".toList text

def Pattern.priority : Pattern → Nat
  | .ident => 1
  | _ => 2

def patterns : List Pattern :=
  [ .skip .blanks, .skip .slashRun, .skip .lineComment, .skip .bareComment, .lineDoc, .fraction,
    .exponent, .int, .string, .charLit, .ident, .atImport ] ++
  fixedTokens.attach.map fun token => .fixed ⟨token.1, token.2⟩

inductive PieceKind
  | skipped (pattern : SkipPattern)
  | token (kind : TokenKind)

structure Piece where
  kind : PieceKind
  start : Nat
  stop : Nat

inductive Step
  | piece (kind : PieceKind) (taken rest : List Char)
  | error (error : LexError)
  -- `bump` to an offset that is no character boundary.
  | panic

/-- `str::parse::<f64>` and `to_bits`. -/
abbrev ParseF64 := List Char → Option UInt64

def orError {α : Type} (error : LexError) : Option α → Except LexError α
  | some value => .ok value
  | none => .error error

def callback (parseF64 : ParseF64) (pattern : Pattern) (slice remainder : List Char) :
    Except LexError PieceKind × Nat :=
  match pattern with
  | .skip pattern => (.ok (.skipped pattern), 0)
  | .lineDoc =>
    let (body, consumed) := processLineDoc remainder
    (.ok (.token (.lineDoc body)), consumed)
  | .fixed token => (.ok (.token (.fixed token)), 0)
  | .fraction | .exponent =>
    ((orError .invalidFloat (parseF64 slice)).map fun bits => .token (.float bits), 0)
  | .int => ((orError .invalidInteger (parseU64 slice)).map fun value => .token (.int value), 0)
  | .string =>
    let (result, consumed) := processStringFromQuote remainder
    (result.map fun value => .token (.string value), consumed)
  | .charLit =>
    let (result, consumed) := processCharFromQuote remainder
    (result.map fun value => .token (.charLit value), consumed)
  | .ident => (.ok (.token (.ident slice)), 0)
  | .atImport =>
    (if atImportCallback remainder then .ok (.token .atImport) else .error .unexpectedCharacter, 0)

def step (parseF64 : ParseF64) (text : List Char) : Step :=
  match LongestMatch.pick Pattern.longest Pattern.priority text patterns with
  | none => .error .unexpectedCharacter
  | some (pattern, length) =>
    let (result, consumed) := callback parseF64 pattern (text.take length) (text.drop length)
    match splitAtByte (text.drop length) consumed with
    | none => .panic
    | some (more, rest) =>
      match result with
      | .ok kind => .piece kind (text.take length ++ more) rest
      | .error error => .error error

inductive Failure
  | lex (error : LexError)
  | panic
  | outOfFuel
  deriving DecidableEq, Repr

def run (parseF64 : ParseF64) : Nat → List Char → Nat → Except Failure (List Piece)
  | _, [], _ => .ok []
  | 0, _ :: _, _ => .error .outOfFuel
  | fuel + 1, char :: chars, offset =>
    match step parseF64 (char :: chars) with
    | .error error => .error (.lex error)
    | .panic => .error .panic
    | .piece kind taken rest => do
        let pieces ← run parseF64 fuel rest (offset + byteLength taken)
        .ok (⟨kind, offset, offset + byteLength taken⟩ :: pieces)

attribute [grind =] scanHex run

/-- Everything the lexer matches in a source it accepts, with what it skips. -/
def pieces (parseF64 : ParseF64) (source : List Char) : Except Failure (List Piece) :=
  run parseF64 source.length source 0

structure Token where
  kind : Option TokenKind
  start : UInt32
  stop : UInt32

def Piece.token (piece : Piece) : Option Token := match piece.kind with
  | .skipped _ => none
  | .token kind => some ⟨some kind, UInt32.ofNat piece.start, UInt32.ofNat piece.stop⟩

def tokenize (parseF64 : ParseF64) (source : List Char) : Except Failure (List Token) := do
  let pieces ← pieces parseF64 source
  let eofPos := UInt32.ofNat (byteLength source)
  .ok (pieces.filterMap Piece.token ++ [⟨none, eofPos, eofPos⟩])

end Lexer

end Gruel
