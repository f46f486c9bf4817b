import Gruel.Lib.CharText

/-!
The formatter's scan for comments and blank lines: a loop over the bytes of the source with its
own way past string and character literals.
-/

namespace Gruel

namespace Trivia

open CharText

inductive TriviaKind
  | comment
  | blank
  deriving DecidableEq, Repr

structure TriviaEntry where
  kind : TriviaKind
  start : UInt32
  stop : UInt32
  deriving DecidableEq, Repr

def slash : UInt8 := 47

def newline : UInt8 := 10

def space : UInt8 := 32

def tab : UInt8 := 9

def carriageReturn : UInt8 := 13

def doubleQuote : UInt8 := 34

def singleQuote : UInt8 := 39

def backslash : UInt8 := 92

/-- From behind an opening quote, the bytes up to behind the closing one, or to the end of the
line where there is none. -/
def skipQuoted (quote : UInt8) : List UInt8 → Nat
  | [] => 0
  | byte :: bytes =>
    if byte = quote then 1
    else
      match bytes with
      | [] => if byte = newline then 0 else 1
      | escaped :: behind =>
        if byte = backslash then 2 + skipQuoted quote behind
        else if byte = newline then 0
        else 1 + skipQuoted quote (escaped :: behind)

attribute [grind =] skipQuoted

def skipString : List UInt8 → Nat := skipQuoted doubleQuote

def skipChar : List UInt8 → Nat := skipQuoted singleQuote

structure Scan where
  entries : List TriviaEntry := []
  blankRunStart : Option UInt32 := none
  newlinesInRun : UInt32 := 0
  deriving DecidableEq, Repr

def flushBlank (entries : List TriviaEntry) (start : Option UInt32) (newlines : UInt32) : List TriviaEntry :=
  if 2 ≤ newlines then
    match start with
    | some start => entries ++ [⟨.blank, start, start + newlines⟩]
    | none => entries
  else entries

def Scan.flush (scan : Scan) : Scan where
  entries := flushBlank scan.entries scan.blankRunStart scan.newlinesInRun

def Scan.push (scan : Scan) (entry : TriviaEntry) : Scan :=
  { scan with entries := scan.entries ++ [entry] }

def slashCount (bytes : List UInt8) : BitVec 32 :=
  BitVec.ofNat 32 (bytes.takeWhile (· == slash)).length

def turn (byte : UInt8) (bytes : List UInt8) (i : Nat) (scan : Scan) : Nat × Scan :=
  if byte = slash ∧ bytes.head? = some slash then
    let line := (byte :: bytes).takeWhile (· != newline)
    let start := UInt32.ofNat i
    let stop := UInt32.ofNat (i + line.length)
    if slashCount (byte :: bytes) = 2 then
      (line.length, scan.flush.push ⟨.comment, start, stop⟩)
    else (line.length, scan)
  else if byte = newline then
    (1, { scan with
        blankRunStart :=
          if scan.newlinesInRun = 0 then some (UInt32.ofNat i) else scan.blankRunStart
        newlinesInRun := scan.newlinesInRun + 1 })
  -- Other white space does not break a run of newlines.
  else if byte = space ∨ byte = tab ∨ byte = carriageReturn then (1, scan)
  else if byte = doubleQuote then (1 + skipString bytes, scan.flush)
  else if byte = singleQuote then (1 + skipChar bytes, scan.flush)
  else (1, scan.flush)

def scanFrom : List UInt8 → Nat → Nat → Scan → Scan
  | [], _, _, scan => scan
  | _ :: bytes, skip + 1, i, scan => scanFrom bytes skip (i + 1) scan
  | byte :: bytes, 0, i, scan =>
    let (passed, scan) := turn byte bytes i scan
    scanFrom bytes (passed - 1) (i + 1) scan

/-- `TriviaTable::scan` -/
def scan (source : List Char) : List TriviaEntry := (scanFrom (bytes source) 0 0 {}).flush.entries

end Trivia

end Gruel
