import Gruel.Lib.WordStream
import Gruel.Source

/-!
The extra array of the untyped intermediate representation: the values stored in
it, how each is laid out in words, and how it is read back.  A read past the end of
the array, an unknown tag and an invalid symbol panic in the source and are `none`
here.
-/

namespace Gruel

open WordStream

abbrev Word := BitVec 32

abbrev InstRef := BitVec 32

def wordMax : Word := BitVec.allOnes 32

inductive RirParamMode
  | normal | mutRef | ref | comptime
  deriving DecidableEq, Repr

inductive RirArgMode
  | normal | mutRef | ref
  deriving DecidableEq, Repr

structure RirDirective where
  name : Spur
  args : List Spur
  span : Span
  deriving DecidableEq, Repr

structure RirParam where
  name : Spur
  ty : Spur
  mode : RirParamMode
  isComptime : Bool
  deriving DecidableEq, Repr

structure RirCallArg where
  value : InstRef
  mode : RirArgMode
  deriving DecidableEq, Repr

mutual

inductive RirPattern
  | wildcard (span : Span)
  | int (value : BitVec 64) (span : Span)
  | bool (value : Bool) (span : Span)
  | path (module : Option InstRef) (typeName variant : Spur) (span : Span)
  | dataVariant (module : Option InstRef) (typeName variant : Spur) (bindings : List RirPatternBinding) (span : Span)
  | structVariant (module : Option InstRef) (typeName variant : Spur)
      (fieldBindings : List RirStructPatternBinding) (span : Span)
  | ident (name : Spur) (isMut : Bool) (span : Span)
  | tuple (elems : List RirPattern) (restPosition : Option Word) (span : Span)
  | struct (module : Option InstRef) (typeName : Spur) (fields : List RirStructField) (hasRest : Bool) (span : Span)
  | comptimeUnrollArm (binding : Spur) (iterable : InstRef) (span : Span)

inductive RirPatternBinding
  | mk (isWildcard isMut : Bool) (name : Option Spur) (subPattern : Option RirPattern)

inductive RirStructPatternBinding
  | mk (fieldName : Spur) (binding : RirPatternBinding)

inductive RirStructField
  | mk (fieldName : Spur) (pattern : RirPattern)

end

structure RirDestructureField where
  fieldName : Spur
  bindingName : Option Spur
  isWildcard : Bool
  isMut : Bool
  deriving DecidableEq, Repr

structure RirEnumVariantDecl where
  name : Spur
  fieldTypes : List Spur
  fieldNames : List Spur
  deriving DecidableEq, Repr

inductive PatternKind
  | wildcard | int | bool | path | dataVariant | structVariant | ident | tuple | struct
  | comptimeUnrollArm
  deriving DecidableEq, Repr

namespace PatternKind

def code : PatternKind → Word
  | wildcard => 0
  | int => 1
  | bool => 2
  | path => 3
  | dataVariant => 4
  | structVariant => 5
  | ident => 6
  | tuple => 7
  | struct => 8
  | comptimeUnrollArm => 9

def ofCode (word : Word) : Option PatternKind := match word.toNat with
  | 0 => some wildcard
  | 1 => some int
  | 2 => some bool
  | 3 => some path
  | 4 => some dataVariant
  | 5 => some structVariant
  | 6 => some ident
  | 7 => some tuple
  | 8 => some struct
  | 9 => some comptimeUnrollArm
  | _ => none

end PatternKind

def spurWord (symbol : Spur) : Word := BitVec.ofNat 32 symbol.val

def lengthWord (count : Nat) : Word := BitVec.ofNat 32 count

def boolWord (value : Bool) : Word := if value then 1 else 0

def optionWord (value : Option Word) : Word := value.getD wordMax

def optionSpurWord (value : Option Spur) : Word := optionWord (value.map spurWord)

-- An `i64` is stored low word first; the shift right keeps the sign.
def lowWord (value : BitVec 64) : Word := value.setWidth 32

def highWord (value : BitVec 64) : Word := (value.sshiftRight 32).setWidth 32

def spurOfWord (word : Word) : Option Spur :=
  if valid : word.toNat < 4294967295 then some ⟨word.toNat, valid⟩ else none

def boolOfWord (word : Word) : Bool := decide (word ≠ 0)

def optionOfWord (word : Word) : Option Word := if word = wordMax then none else some word

def optionSpurOfWord (word : Word) : Option (Option Spur) :=
  if word = wordMax then some none else (spurOfWord word).map some

def intOfWords (low high : Word) : BitVec 64 := low.setWidth 64 ||| (high.setWidth 64 <<< 32)

def bindingFlags (isWildcard isMut hasSubPattern : Bool) : Word :=
  (if isWildcard then 1 else 0) ||| (if isMut then 2 else 0) ||| (if hasSubPattern then 4 else 0)

def patternHeader (kind : PatternKind) (span : Span) : List Word :=
  [kind.code, span.start, span.len]

mutual

def encodePatternTree : RirPattern → List Word
  | .wildcard span => patternHeader .wildcard span
  | .int value span => patternHeader .int span ++ [lowWord value, highWord value]
  | .bool value span => patternHeader .bool span ++ [boolWord value]
  | .path module typeName variant span =>
    patternHeader .path span ++ [optionWord module, spurWord typeName, spurWord variant]
  | .dataVariant module typeName variant bindings span =>
    patternHeader .dataVariant span ++
      [optionWord module, spurWord typeName, spurWord variant, lengthWord bindings.length] ++
      encodeBindings bindings
  | .structVariant module typeName variant fieldBindings span =>
    patternHeader .structVariant span ++ [optionWord module, spurWord typeName, spurWord variant,
        lengthWord fieldBindings.length] ++
      encodeStructBindings fieldBindings
  | .ident name isMut span => patternHeader .ident span ++ [spurWord name, boolWord isMut]
  | .tuple elems restPosition span =>
    patternHeader .tuple span ++ [optionWord restPosition, lengthWord elems.length] ++ encodePatternTrees elems
  | .struct module typeName fields hasRest span =>
    patternHeader .struct span ++
      [optionWord module, spurWord typeName, boolWord hasRest, lengthWord fields.length] ++
      encodeStructFields fields
  | .comptimeUnrollArm binding iterable span =>
    patternHeader .comptimeUnrollArm span ++ [spurWord binding, iterable]

def encodeBinding : RirPatternBinding → List Word
  | .mk isWildcard isMut name subPattern =>
    [bindingFlags isWildcard isMut subPattern.isSome, optionSpurWord name] ++ encodeSubPattern subPattern

def encodeSubPattern : Option RirPattern → List Word
  | none => []
  | some pattern => encodePatternTree pattern

def encodeStructBinding : RirStructPatternBinding → List Word
  | .mk fieldName binding => spurWord fieldName :: encodeBinding binding

def encodeStructField : RirStructField → List Word
  | .mk fieldName pattern => spurWord fieldName :: encodePatternTree pattern

def encodePatternTrees : List RirPattern → List Word
  | [] => []
  | pattern :: patterns => encodePatternTree pattern ++ encodePatternTrees patterns

def encodeBindings : List RirPatternBinding → List Word
  | [] => []
  | binding :: bindings => encodeBinding binding ++ encodeBindings bindings

def encodeStructBindings : List RirStructPatternBinding → List Word
  | [] => []
  | binding :: bindings => encodeStructBinding binding ++ encodeStructBindings bindings

def encodeStructFields : List RirStructField → List Word
  | [] => []
  | field :: fields => encodeStructField field ++ encodeStructFields fields

end

def decodeSpan (data : List Word) : Option Span := do
  let start ← data[1]?
  let len ← data[2]?
  some (Span.new start (start + len))

def decodeBinding (decodeTree : Decoder Word RirPattern) : Decoder Word RirPatternBinding :=
  fun data => do
    let flags ← data[0]?
    let name ← optionSpurOfWord (← data[1]?)
    if flags &&& 4 ≠ 0 then
      let (pattern, consumed) ← decodeTree (data.drop 2)
      some (.mk (flags &&& 1 ≠ 0) (flags &&& 2 ≠ 0) name (some pattern), 2 + consumed)
    else some (.mk (flags &&& 1 ≠ 0) (flags &&& 2 ≠ 0) name none, 2)

def decodeStructBinding (decodeTree : Decoder Word RirPattern) : Decoder Word RirStructPatternBinding :=
  fun data => do
    let fieldName ← spurOfWord (← data[0]?)
    let (binding, consumed) ← decodeBinding decodeTree (data.drop 1)
    some (.mk fieldName binding, 1 + consumed)

def decodeStructField (decodeTree : Decoder Word RirPattern) : Decoder Word RirStructField :=
  fun data => do
    let fieldName ← spurOfWord (← data[0]?)
    let (pattern, consumed) ← decodeTree (data.drop 1)
    some (.mk fieldName pattern, 1 + consumed)

-- Every level of nesting takes words of its own, so the length of the slice bounds
-- the depth of the recursion.
def decodePatternTree : Nat → Decoder Word RirPattern
  | 0, _ => none
  | depth + 1, data => do
      let kind ← PatternKind.ofCode (← data[0]?)
      let span ← decodeSpan data
      match kind with
      | .wildcard => some (.wildcard span, 3)
      | .int => some (.int (intOfWords (← data[3]?) (← data[4]?)) span, 5)
      | .bool => some (.bool (boolOfWord (← data[3]?)) span, 4)
      | .path =>
        let module := optionOfWord (← data[3]?)
        let typeName ← spurOfWord (← data[4]?)
        let variant ← spurOfWord (← data[5]?)
        some (.path module typeName variant span, 6)
      | .dataVariant =>
        let module := optionOfWord (← data[3]?)
        let typeName ← spurOfWord (← data[4]?)
        let variant ← spurOfWord (← data[5]?)
        let (bindings, stop) ←
          decodeMany (decodeBinding (decodePatternTree depth)) data (← data[6]?).toNat 7
        some (.dataVariant module typeName variant bindings span, stop)
      | .structVariant =>
        let module := optionOfWord (← data[3]?)
        let typeName ← spurOfWord (← data[4]?)
        let variant ← spurOfWord (← data[5]?)
        let (fieldBindings, stop) ←
          decodeMany (decodeStructBinding (decodePatternTree depth)) data (← data[6]?).toNat 7
        some (.structVariant module typeName variant fieldBindings span, stop)
      | .ident =>
        let name ← spurOfWord (← data[3]?)
        some (.ident name (boolOfWord (← data[4]?)) span, 5)
      | .tuple =>
        let restPosition := optionOfWord (← data[3]?)
        let (elems, stop) ← decodeMany (decodePatternTree depth) data (← data[4]?).toNat 5
        some (.tuple elems restPosition span, stop)
      | .struct =>
        let module := optionOfWord (← data[3]?)
        let typeName ← spurOfWord (← data[4]?)
        let hasRest := boolOfWord (← data[5]?)
        let (fields, stop) ←
          decodeMany (decodeStructField (decodePatternTree depth)) data (← data[6]?).toNat 7
        some (.struct module typeName fields hasRest span, stop)
      | .comptimeUnrollArm =>
        let binding ← spurOfWord (← data[3]?)
        some (.comptimeUnrollArm binding (← data[4]?) span, 5)

/-! ### Match arms

An arm has its own layout beside the tree layout: the word of the body stands last
for the four oldest kinds, after the variant for the two enum kinds, and before the
payload for the rest. -/

abbrev RirMatchArm := RirPattern × InstRef

def encodeMatchArm : RirMatchArm → List Word
  | (.wildcard span, body) => patternHeader .wildcard span ++ [body]
  | (.int value span, body) => patternHeader .int span ++ [lowWord value, highWord value, body]
  | (.bool value span, body) => patternHeader .bool span ++ [boolWord value, body]
  | (.path module typeName variant span, body) =>
    patternHeader .path span ++ [optionWord module, spurWord typeName, spurWord variant, body]
  | (.dataVariant module typeName variant bindings span, body) =>
    patternHeader .dataVariant span ++ [optionWord module, spurWord typeName, spurWord variant, body,
        lengthWord bindings.length] ++
      encodeBindings bindings
  | (.structVariant module typeName variant fieldBindings span, body) =>
    patternHeader .structVariant span ++ [optionWord module, spurWord typeName, spurWord variant, body,
        lengthWord fieldBindings.length] ++
      encodeStructBindings fieldBindings
  | (.ident name isMut span, body) =>
    patternHeader .ident span ++ [body, spurWord name, boolWord isMut]
  | (.tuple elems restPosition span, body) =>
    patternHeader .tuple span ++ [body, optionWord restPosition, lengthWord elems.length] ++ encodePatternTrees elems
  | (.struct module typeName fields hasRest span, body) =>
    patternHeader .struct span ++ [body, optionWord module, spurWord typeName, boolWord hasRest,
        lengthWord fields.length] ++
      encodeStructFields fields
  | (.comptimeUnrollArm binding iterable span, body) =>
    patternHeader .comptimeUnrollArm span ++ [body, spurWord binding, iterable]

def decodeMatchArm : Decoder Word RirMatchArm := fun data => do
  let kind ← PatternKind.ofCode (← data[0]?)
  let span ← decodeSpan data
  let tree := decodePatternTree data.length
  match kind with
  | .wildcard => some ((.wildcard span, ← data[3]?), 4)
  | .int => some ((.int (intOfWords (← data[3]?) (← data[4]?)) span, ← data[5]?), 6)
  | .bool => some ((.bool (boolOfWord (← data[3]?)) span, ← data[4]?), 5)
  | .path =>
    let module := optionOfWord (← data[3]?)
    let typeName ← spurOfWord (← data[4]?)
    let variant ← spurOfWord (← data[5]?)
    some ((.path module typeName variant span, ← data[6]?), 7)
  | .dataVariant =>
    let module := optionOfWord (← data[3]?)
    let typeName ← spurOfWord (← data[4]?)
    let variant ← spurOfWord (← data[5]?)
    let body ← data[6]?
    let (bindings, stop) ← decodeMany (decodeBinding tree) data (← data[7]?).toNat 8
    some ((.dataVariant module typeName variant bindings span, body), stop)
  | .structVariant =>
    let module := optionOfWord (← data[3]?)
    let typeName ← spurOfWord (← data[4]?)
    let variant ← spurOfWord (← data[5]?)
    let body ← data[6]?
    let (fieldBindings, stop) ← decodeMany (decodeStructBinding tree) data (← data[7]?).toNat 8
    some ((.structVariant module typeName variant fieldBindings span, body), stop)
  | .ident =>
    let body ← data[3]?
    let name ← spurOfWord (← data[4]?)
    some ((.ident name (boolOfWord (← data[5]?)) span, body), 6)
  | .tuple =>
    let body ← data[3]?
    let restPosition := optionOfWord (← data[4]?)
    let (elems, stop) ← decodeMany tree data (← data[5]?).toNat 6
    some ((.tuple elems restPosition span, body), stop)
  | .struct =>
    let body ← data[3]?
    let module := optionOfWord (← data[4]?)
    let typeName ← spurOfWord (← data[5]?)
    let hasRest := boolOfWord (← data[6]?)
    let (fields, stop) ← decodeMany (decodeStructField tree) data (← data[7]?).toNat 8
    some ((.struct module typeName fields hasRest span, body), stop)
  | .comptimeUnrollArm =>
    let body ← data[3]?
    let binding ← spurOfWord (← data[4]?)
    some ((.comptimeUnrollArm binding (← data[5]?) span, body), 6)

def RirParamMode.code : RirParamMode → Word
  | normal => 0
  | mutRef => 1
  | ref => 2
  | comptime => 3

def RirParamMode.ofCode (word : Word) : RirParamMode := match word.toNat with
  | 1 => mutRef
  | 2 => ref
  | 3 => comptime
  | _ => normal

def RirArgMode.code : RirArgMode → Word
  | normal => 0
  | mutRef => 1
  | ref => 2

def RirArgMode.ofCode (word : Word) : RirArgMode := match word.toNat with
  | 1 => mutRef
  | 2 => ref
  | _ => normal

def encodeCallArg (arg : RirCallArg) : List Word := [arg.value, arg.mode.code]

def decodeCallArg : Decoder Word RirCallArg := fun data => do
  some (⟨← data[0]?, .ofCode (← data[1]?)⟩, 2)

def encodeParam (param : RirParam) : List Word :=
  [spurWord param.name, spurWord param.ty, param.mode.code, boolWord param.isComptime]

def decodeParam : Decoder Word RirParam := fun data => do
  let name ← spurOfWord (← data[0]?)
  let ty ← spurOfWord (← data[1]?)
  some (⟨name, ty, .ofCode (← data[2]?), boolOfWord (← data[3]?)⟩, 4)

abbrev RirFieldInit := Spur × InstRef

def encodeFieldInit (field : RirFieldInit) : List Word := [spurWord field.1, field.2]

def decodeFieldInit : Decoder Word RirFieldInit := fun data => do
  let name ← spurOfWord (← data[0]?)
  some ((name, ← data[1]?), 2)

abbrev RirFieldDecl := Spur × Spur × Bool

def encodeFieldDecl (field : RirFieldDecl) : List Word :=
  [spurWord field.1, spurWord field.2.1, boolWord field.2.2]

def decodeFieldDecl : Decoder Word RirFieldDecl := fun data => do
  let name ← spurOfWord (← data[0]?)
  let ty ← spurOfWord (← data[1]?)
  some ((name, ty, boolOfWord (← data[2]?)), 3)

def decodeSpur : Decoder Word Spur := fun data => do
  some (← spurOfWord (← data[0]?), 1)

def decodeInstRef : Decoder Word InstRef := fun data => do
  some (← data[0]?, 1)

def encodeEnumVariantDecl (variant : RirEnumVariantDecl) : List Word :=
  [spurWord variant.name, lengthWord variant.fieldTypes.length, if variant.fieldNames.isEmpty then 0 else 1] ++
    variant.fieldTypes.map spurWord ++ variant.fieldNames.map spurWord

def decodeEnumVariantDecl : Decoder Word RirEnumVariantDecl := fun data => do
  let name ← spurOfWord (← data[0]?)
  let fieldCount := (← data[1]?).toNat
  let isStruct := boolOfWord (← data[2]?)
  let (fieldTypes, typesStop) ← decodeMany decodeSpur data fieldCount 3
  if isStruct then
    let (fieldNames, stop) ← decodeMany decodeSpur data fieldCount typesStop
    some (⟨name, fieldTypes, fieldNames⟩, stop)
  else some (⟨name, fieldTypes, []⟩, typesStop)

def encodeDirective (directive : RirDirective) : List Word :=
  [spurWord directive.name, directive.span.start, directive.span.len,
    lengthWord directive.args.length] ++ directive.args.map spurWord

-- The stored length is passed where `Span::new` takes the end.
def decodeDirective : Decoder Word RirDirective := fun data => do
  let name ← spurOfWord (← data[0]?)
  let span := Span.new (← data[1]?) (← data[2]?)
  let (args, stop) ← decodeMany decodeSpur data (← data[3]?).toNat 4
  some (⟨name, args, span⟩, stop)

def encodeDestructureField (field : RirDestructureField) : List Word :=
  [spurWord field.fieldName, optionSpurWord field.bindingName, boolWord field.isWildcard, boolWord field.isMut]

def decodeDestructureField : Decoder Word RirDestructureField := fun data => do
  let fieldName ← spurOfWord (← data[0]?)
  let bindingName ← optionSpurOfWord (← data[1]?)
  some (⟨fieldName, bindingName, boolOfWord (← data[2]?), boolOfWord (← data[3]?)⟩, 4)

/-- Append the words of a list; its `(start, count)` reads it back. -/
def addExtra {Item : Type} (encode : Item → List Word) (extra : List Word) (items : List Item) :
    List Word × Word × Word :=
  (extra ++ items.flatMap encode, lengthWord extra.length, lengthWord items.length)

def getExtra {Item : Type} (decode : Decoder Word Item) (extra : List Word) (start count : Word) :
    Option (List Item) :=
  (decodeMany decode extra count.toNat start.toNat).map Prod.fst

def addMatchArms := addExtra encodeMatchArm
def getMatchArms := getExtra decodeMatchArm
def addDirectives := addExtra encodeDirective
def getDirectives := getExtra decodeDirective
def addParams := addExtra encodeParam
def getParams := getExtra decodeParam
def addCallArgs := addExtra encodeCallArg
def getCallArgs := getExtra decodeCallArg
def addFieldInits := addExtra encodeFieldInit
def getFieldInits := getExtra decodeFieldInit
def addFieldDeclsWithVis := addExtra encodeFieldDecl
def getFieldDeclsWithVis := getExtra decodeFieldDecl
def addEnumVariantDecls := addExtra encodeEnumVariantDecl
def getEnumVariantDecls := getExtra decodeEnumVariantDecl
def addDestructureFields := addExtra encodeDestructureField
def getDestructureFields := getExtra decodeDestructureField
def addInstRefs := addExtra fun ref : InstRef => [ref]
def getInstRefs := getExtra decodeInstRef
def addSymbols := addExtra fun symbol : Spur => [spurWord symbol]
def getSymbols := getExtra decodeSpur

def privateField (field : Spur × Spur) : RirFieldDecl := (field.1, field.2, false)

def fieldWithoutVis (field : RirFieldDecl) : Spur × Spur := (field.1, field.2.1)

def addFieldDecls (extra : List Word) (fields : List (Spur × Spur)) : List Word × Word × Word :=
  addFieldDeclsWithVis extra (fields.map privateField)

def getFieldDecls (extra : List Word) (start count : Word) : Option (List (Spur × Spur)) :=
  (getFieldDeclsWithVis extra start count).map (List.map fieldWithoutVis)

end Gruel
