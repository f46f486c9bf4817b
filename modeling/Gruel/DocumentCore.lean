import Gruel.Lib.CharText

/-!
The language server's document store: the cached table of line starts, the
conversion of editor positions to byte offsets, and incremental changes. A
function that can panic returns `none` where it does.
-/

namespace Gruel.Lsp

open CharText

abbrev Text := List Char

inductive PositionEncoding
  | utf8
  | utf16
  deriving DecidableEq, Repr

structure Position where
  line : UInt32
  character : UInt32
  deriving DecidableEq, Repr

structure Range where
  start : Position
  stop : Position
  deriving DecidableEq, Repr

structure LineMap where
  lineStarts : List UInt32
  sourceLen : UInt32
  deriving DecidableEq, Repr

def newline : UInt8 := 10

def lineStartsFrom : Nat → List UInt8 → List UInt32
  | _, [] => []
  | offset, byte :: bytes =>
    if byte = newline then UInt32.ofNat (offset + 1) :: lineStartsFrom (offset + 1) bytes
    else lineStartsFrom (offset + 1) bytes

attribute [grind =] lineStartsFrom

namespace LineMap

def new (source : Text) : LineMap where
  lineStarts := 0 :: lineStartsFrom 0 (bytes source)
  sourceLen := UInt32.ofNat (byteLength source)

def lineForByte (lineMap : LineMap) (byte : UInt32) : UInt32 :=
  -- The starts increase, so the partition point is the length of the part before it.
  let byte := min byte lineMap.sourceLen
  let pp := (lineMap.lineStarts.takeWhile fun start => decide (start ≤ byte)).length
  UInt32.ofNat (pp - 1)

def lineStart (lineMap : LineMap) (line : UInt32) : UInt32 :=
  (lineMap.lineStarts[line.toNat]?).getD lineMap.sourceLen

def saturatingSucc (line : UInt32) : Nat := min (line.toNat + 1) (2 ^ 32 - 1)

def lineEnd (lineMap : LineMap) (source : Text) (line : UInt32) : UInt32 :=
  match lineMap.lineStarts[saturatingSucc line]? with
  | none => lineMap.sourceLen
  | some nextStart =>
    if 0 < nextStart ∧ (bytes source)[(nextStart - 1).toNat]? = some newline then nextStart - 1
    else nextStart

end LineMap

def lenUtf16 (char : Char) : UInt32 := if char.val < 0x10000 then 1 else 2

def utf16ColumnBytes (character : UInt32) : Text → UInt32 → Nat → Nat
  | [], _, byteOff => byteOff
  | char :: text, utf16Count, byteOff =>
    if utf16Count ≥ character then byteOff
    else utf16ColumnBytes character text (utf16Count + lenUtf16 char) (byteOff + char.utf8Size)

attribute [grind =] utf16ColumnBytes

def columnBytes (encoding : PositionEncoding) (lineText : Text) (character : UInt32) : Nat :=
  match encoding with
  | .utf8 => min character.toNat (byteLength lineText)
  | .utf16 => min (utf16ColumnBytes character lineText 0 0) (byteLength lineText)

def encodeUtf16Count (text : Text) : Nat := (text.map fun char => (lenUtf16 char).toNat).sum

def byteToPosition (lineMap : LineMap) (source : Text) (byte : UInt32)
    (encoding : PositionEncoding) : Option Position := do
  let byte := min byte (UInt32.ofNat (byteLength source))
  let line := lineMap.lineForByte byte
  let front ← slice source (lineMap.lineStart line).toNat byte.toNat
  let character := match encoding with
    | .utf8 => UInt32.ofNat (byteLength front)
    | .utf16 => UInt32.ofNat (encodeUtf16Count front)
  pure { line, character }

def positionToByte (lineMap : LineMap) (source : Text) (pos : Position)
    (encoding : PositionEncoding) : Option UInt32 := do
  let lineStart := (lineMap.lineStart pos.line).toNat
  let lineEnd := (lineMap.lineEnd source pos.line).toNat
  let lineText ← slice source lineStart lineEnd
  pure (UInt32.ofNat (lineStart + columnBytes encoding lineText pos.character))

structure DocState where
  text : Text
  version : Int
  lineMap : LineMap
  isOpen : Bool
  deriving DecidableEq, Repr

structure ContentChange where
  range : Option Range
  text : Text
  deriving DecidableEq, Repr

namespace DocState

def new (text : Text) (version : Int) (isOpen : Bool) : DocState :=
  { text, version, lineMap := LineMap.new text, isOpen }

def setText (doc : DocState) (text : Text) (version : Int) : DocState :=
  { doc with text, version, lineMap := LineMap.new text }

def withText (doc : DocState) (text : Text) : DocState :=
  { doc with text, lineMap := LineMap.new text }

def applyChange (doc : DocState) (change : ContentChange) (encoding : PositionEncoding) : Option (Bool × DocState) :=
  match change.range with
  | some range => do
      let start ← positionToByte doc.lineMap doc.text range.start encoding
      let stop ← positionToByte doc.lineMap doc.text range.stop encoding
      if start.toNat > stop.toNat ∨ stop.toNat > byteLength doc.text then
        pure (false, doc)
      else
        let text ← replaceRange doc.text start.toNat stop.toNat change.text
        pure (true, doc.withText text)
  | none => some (true, doc.withText change.text)

def applyChanges (encoding : PositionEncoding) : List ContentChange → DocState → Option (List Bool × DocState)
  | [], doc => some ([], doc)
  | change :: changes, doc => do
      let (accepted, doc) ← doc.applyChange change encoding
      let (answers, doc) ← applyChanges encoding changes doc
      pure (accepted :: answers, doc)

end DocState

end Gruel.Lsp
