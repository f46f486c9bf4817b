import Gruel.RirCore

/-!
Reading the extra array back.  `view` functions say what a decoder returns for the
words of a value: a pattern comes back without the file of its spans, a directive
with its length as the end of its span.  A list is recovered exactly when its view
is itself.
-/

namespace Gruel

open WordStream

attribute [local simp] patternHeader decodeSpan encodePatternTree encodeMatchArm decodeMatchArm

@[simp] theorem spurOfWord_spurWord (symbol : Spur) : spurOfWord (spurWord symbol) = some symbol := by
  have fits : symbol.val % 4294967296 = symbol.val := Nat.mod_eq_of_lt (by omega)
  have inRange : symbol.val < 4294967295 := symbol.isLt
  simp [spurOfWord, spurWord, fits, inRange]

@[simp] theorem boolOfWord_boolWord (value : Bool) : boolOfWord (boolWord value) = value := by
  cases value <;> decide

theorem spurWord_ne_wordMax (symbol : Spur) : spurWord symbol ≠ wordMax := by
  intro equal
  have numbers := congrArg BitVec.toNat equal
  have fits : symbol.val % 4294967296 = symbol.val := Nat.mod_eq_of_lt (by omega)
  simp only [spurWord, wordMax, BitVec.toNat_ofNat, BitVec.toNat_allOnes, Nat.reducePow, fits,
    Nat.reduceSub] at numbers
  omega

@[simp] theorem optionSpurOfWord_optionSpurWord (name : Option Spur) :
    optionSpurOfWord (optionSpurWord name) = some name := by
  cases name with
  | none => simp [optionSpurWord, optionWord, optionSpurOfWord]
  | some symbol =>
    simp [optionSpurWord, optionWord, optionSpurOfWord, spurWord_ne_wordMax symbol]

@[simp] theorem ofCode_code (kind : PatternKind) : PatternKind.ofCode kind.code = some kind := by
  cases kind <;> rfl

@[simp] theorem intOfWords_words (value : BitVec 64) : intOfWords (lowWord value) (highWord value) = value := by
  apply BitVec.eq_of_getLsbD_eq
  intro index inside
  simp only [intOfWords, lowWord, highWord, BitVec.getLsbD_or, BitVec.getLsbD_setWidth,
    BitVec.getLsbD_shiftLeft, BitVec.getLsbD_sshiftRight]
  by_cases low : index < 32
  · simp [low, inside]
  · have back : 32 + (index - 32) = index := by omega
    have high : index - 32 < 32 := by omega
    have within : index - 32 < 64 := by omega
    simp [low, inside, high, back, within]

@[simp] theorem ofCode_paramMode (mode : RirParamMode) : RirParamMode.ofCode mode.code = mode := by
  cases mode <;> rfl

@[simp] theorem ofCode_argMode (mode : RirArgMode) : RirArgMode.ofCode mode.code = mode := by
  cases mode <;> rfl

theorem toNat_lengthWord {count : Nat} (fits : count < 2 ^ 32) : (lengthWord count).toNat = count := by
  rw [lengthWord, BitVec.toNat_ofNat, Nat.mod_eq_of_lt fits]

@[simp] theorem bindingFlags_wildcardBit (isWildcard isMut hasSubPattern : Bool) :
    bindingFlags isWildcard isMut hasSubPattern &&& 1#32 = 0#32 ↔ isWildcard = false := by
  cases isWildcard <;> cases isMut <;> cases hasSubPattern <;> decide

@[simp] theorem bindingFlags_mutBit (isWildcard isMut hasSubPattern : Bool) :
    bindingFlags isWildcard isMut hasSubPattern &&& 2#32 = 0#32 ↔ isMut = false := by
  cases isWildcard <;> cases isMut <;> cases hasSubPattern <;> decide

@[simp] theorem bindingFlags_subPatternBit (isWildcard isMut hasSubPattern : Bool) :
    bindingFlags isWildcard isMut hasSubPattern &&& 4#32 = 0#32 ↔ hasSubPattern = false := by
  cases isWildcard <;> cases isMut <;> cases hasSubPattern <;> decide

-- `u32::MAX` stands for `None`, so a reference with that index is lost.
def viewOption (value : Option Word) : Option Word := optionOfWord (optionWord value)

def viewSpan (span : Span) : Span := Span.new span.start (span.start + span.len)

mutual

def viewPattern : RirPattern → RirPattern
  | .wildcard span => .wildcard (viewSpan span)
  | .int value span => .int value (viewSpan span)
  | .bool value span => .bool value (viewSpan span)
  | .path module typeName variant span =>
    .path (viewOption module) typeName variant (viewSpan span)
  | .dataVariant module typeName variant bindings span =>
    .dataVariant (viewOption module) typeName variant (viewBindings bindings) (viewSpan span)
  | .structVariant module typeName variant fieldBindings span =>
    .structVariant (viewOption module) typeName variant (viewStructBindings fieldBindings) (viewSpan span)
  | .ident name isMut span => .ident name isMut (viewSpan span)
  | .tuple elems restPosition span =>
    .tuple (viewPatterns elems) (viewOption restPosition) (viewSpan span)
  | .struct module typeName fields hasRest span =>
    .struct (viewOption module) typeName (viewStructFields fields) hasRest (viewSpan span)
  | .comptimeUnrollArm binding iterable span => .comptimeUnrollArm binding iterable (viewSpan span)

def viewBinding : RirPatternBinding → RirPatternBinding
  | .mk isWildcard isMut name subPattern => .mk isWildcard isMut name (viewSubPattern subPattern)

def viewSubPattern : Option RirPattern → Option RirPattern
  | none => none
  | some pattern => some (viewPattern pattern)

def viewStructBinding : RirStructPatternBinding → RirStructPatternBinding
  | .mk fieldName binding => .mk fieldName (viewBinding binding)

def viewStructField : RirStructField → RirStructField
  | .mk fieldName pattern => .mk fieldName (viewPattern pattern)

def viewPatterns : List RirPattern → List RirPattern
  | [] => []
  | pattern :: patterns => viewPattern pattern :: viewPatterns patterns

def viewBindings : List RirPatternBinding → List RirPatternBinding
  | [] => []
  | binding :: bindings => viewBinding binding :: viewBindings bindings

def viewStructBindings : List RirStructPatternBinding → List RirStructPatternBinding
  | [] => []
  | binding :: bindings => viewStructBinding binding :: viewStructBindings bindings

def viewStructFields : List RirStructField → List RirStructField
  | [] => []
  | field :: fields => viewStructField field :: viewStructFields fields

end

variable {pattern : RirPattern} {fieldName : Spur}

theorem viewPatterns_eq (patterns : List RirPattern) : viewPatterns patterns = patterns.map viewPattern := by
  induction patterns with
  | nil => rfl
  | cons pattern patterns ih => rw [viewPatterns, ih, List.map_cons]

theorem viewBindings_eq (bindings : List RirPatternBinding) : viewBindings bindings = bindings.map viewBinding := by
  induction bindings with
  | nil => rfl
  | cons binding bindings ih => rw [viewBindings, ih, List.map_cons]

theorem viewStructBindings_eq (bindings : List RirStructPatternBinding) :
    viewStructBindings bindings = bindings.map viewStructBinding := by
  induction bindings with
  | nil => rfl
  | cons binding bindings ih => rw [viewStructBindings, ih, List.map_cons]

theorem viewStructFields_eq (fields : List RirStructField) :
    viewStructFields fields = fields.map viewStructField := by
  induction fields with
  | nil => rfl
  | cons field fields ih => rw [viewStructFields, ih, List.map_cons]

theorem encodePatternTrees_eq (patterns : List RirPattern) :
    encodePatternTrees patterns = patterns.flatMap encodePatternTree := by
  induction patterns with
  | nil => rfl
  | cons pattern patterns ih => rw [encodePatternTrees, ih, List.flatMap_cons]

theorem encodeBindings_eq (bindings : List RirPatternBinding) :
    encodeBindings bindings = bindings.flatMap encodeBinding := by
  induction bindings with
  | nil => rfl
  | cons binding bindings ih => rw [encodeBindings, ih, List.flatMap_cons]

theorem encodeStructBindings_eq (bindings : List RirStructPatternBinding) :
    encodeStructBindings bindings = bindings.flatMap encodeStructBinding := by
  induction bindings with
  | nil => rfl
  | cons binding bindings ih => rw [encodeStructBindings, ih, List.flatMap_cons]

theorem encodeStructFields_eq (fields : List RirStructField) :
    encodeStructFields fields = fields.flatMap encodeStructField := by
  induction fields with
  | nil => rfl
  | cons field fields ih => rw [encodeStructFields, ih, List.flatMap_cons]

theorem length_le_flatMap {Item : Type} {encode : Item → List Word} {items : List Item}
    {item : Item} (member : item ∈ items) :
    (encode item).length ≤ (items.flatMap encode).length := by
  induction items with
  | nil => cases member
  | cons head rest ih =>
    rw [List.flatMap_cons, List.length_append]
    rcases List.mem_cons.mp member with rfl | later
    · omega
    · have bound := ih later
      omega

theorem count_le_flatMap {Item : Type} {encode : Item → List Word}
    (occupies : ∀ item, 1 ≤ (encode item).length) (items : List Item) :
    items.length ≤ (items.flatMap encode).length := by
  induction items with
  | nil => exact Nat.zero_le _
  | cons head rest ih =>
    rw [List.flatMap_cons, List.length_append, List.length_cons]
    have bound := occupies head
    omega

theorem one_le_length_encodePatternTree (pattern : RirPattern) : 1 ≤ (encodePatternTree pattern).length := by
  cases pattern <;> simp <;> omega

theorem one_le_length_encodeBinding (binding : RirPatternBinding) : 1 ≤ (encodeBinding binding).length := by
  cases binding
  simp [encodeBinding]

theorem one_le_length_encodeStructBinding (binding : RirStructPatternBinding) :
    1 ≤ (encodeStructBinding binding).length := by
  cases binding
  simp [encodeStructBinding]

theorem one_le_length_encodeStructField (field : RirStructField) : 1 ≤ (encodeStructField field).length := by
  cases field
  simp [encodeStructField]

abbrev ReadsAt {α : Type} (decode : Nat → Decoder Word α) (words : List Word) (value : α) : Prop :=
  ∀ depth, words.length ≤ depth → words.length < 2 ^ 32 → Reads (decode depth) words value

theorem depth_succ {depth : Nat} (deep : (encodePatternTree pattern).length ≤ depth) : ∃ inner, depth = inner + 1 :=
  ⟨depth - 1, by have := one_le_length_encodePatternTree pattern; omega⟩

theorem reads_binding {isWildcard isMut : Bool} {name : Option Spur} {subPattern : Option RirPattern}
    (subReads : ∀ pattern, subPattern = some pattern →
      ReadsAt decodePatternTree (encodePatternTree pattern) (viewPattern pattern)) :
    ReadsAt (fun depth => decodeBinding (decodePatternTree depth))
      (encodeBinding (.mk isWildcard isMut name subPattern))
      (viewBinding (.mk isWildcard isMut name subPattern)) := by
  intro depth deep fits rest
  cases subPattern with
  | none => simp [decodeBinding, encodeBinding, encodeSubPattern, viewBinding, viewSubPattern]
  | some pattern =>
    simp only [encodeBinding, encodeSubPattern, List.length_append, List.length_cons, List.length_nil] at deep fits
    have tree := subReads pattern rfl depth (by omega) (by omega) rest
    simp [decodeBinding, encodeBinding, encodeSubPattern, viewBinding, viewSubPattern, tree]
    omega

theorem reads_structBinding {binding : RirPatternBinding}
    (bindingReads : ReadsAt (fun depth => decodeBinding (decodePatternTree depth))
      (encodeBinding binding) (viewBinding binding)) :
    ReadsAt (fun depth => decodeStructBinding (decodePatternTree depth)) (encodeStructBinding (.mk fieldName binding))
      (viewStructBinding (.mk fieldName binding)) := by
  intro depth deep fits rest
  simp only [encodeStructBinding, List.length_cons] at deep fits
  have inner := bindingReads depth (by omega) (by omega) rest
  simp [decodeStructBinding, encodeStructBinding, viewStructBinding, inner]
  omega

theorem reads_structField
    (patternReads : ReadsAt decodePatternTree (encodePatternTree pattern) (viewPattern pattern)) :
    ReadsAt (fun depth => decodeStructField (decodePatternTree depth))
      (encodeStructField (.mk fieldName pattern)) (viewStructField (.mk fieldName pattern)) := by
  intro depth deep fits rest
  simp only [encodeStructField, List.length_cons] at deep fits
  have inner := patternReads depth (by omega) (by omega) rest
  simp [decodeStructField, encodeStructField, viewStructField, inner]
  omega

theorem reads_sequence {Item α : Type} {decode : Nat → Decoder Word α}
    {encode : Item → List Word} {view : Item → α} (items : List Item) (before rest : List Word)
    (offset : Nat) {depth : Nat}
    (each : ∀ item ∈ items, ReadsAt decode (encode item) (view item))
    (occupies : ∀ item, 1 ≤ (encode item).length)
    (deep : (items.flatMap encode).length ≤ depth)
    (fits : (items.flatMap encode).length < 2 ^ 32) (starts : before.length = offset) :
    decodeMany (decode depth) (before ++ (items.flatMap encode ++ rest)) (lengthWord items.length).toNat offset =
        some (items.map view, offset + (items.flatMap encode).length) := by
  have counted : (lengthWord items.length).toNat = items.length := by
    apply toNat_lengthWord
    have bound := count_le_flatMap occupies items
    omega
  subst starts
  refine decodeMany_all items ?_ before (List.append_assoc _ _ _).symm counted rfl
  intro item member
  have bound := @length_le_flatMap _ encode _ _ member
  exact each item member depth (by omega) (by omega)

mutual

theorem reads_tree : ∀ pattern : RirPattern,
    ReadsAt decodePatternTree (encodePatternTree pattern) (viewPattern pattern)
  | .wildcard _ | .int _ _ | .bool _ _ | .ident _ _ _ | .comptimeUnrollArm _ _ _ => by
      intro depth deep fits rest
      obtain ⟨depth, rfl⟩ := depth_succ deep
      simp [decodePatternTree, viewPattern, viewSpan]
  | .path module typeName variant span => by
      intro depth deep fits rest
      obtain ⟨depth, rfl⟩ := depth_succ deep
      simp [decodePatternTree, viewPattern, viewSpan, viewOption]
  | .dataVariant module typeName variant bindings span => by
      intro depth deep fits rest
      obtain ⟨depth, rfl⟩ := depth_succ deep
      simp only [encodePatternTree, patternHeader, encodeBindings_eq, List.length_append,
        List.length_cons, List.length_nil] at deep fits
      have sequence := reads_sequence bindings
        [PatternKind.dataVariant.code, span.start, span.len, optionWord module, spurWord typeName,
          spurWord variant, lengthWord bindings.length] rest 7 (reads_bindings bindings)
        one_le_length_encodeBinding (by omega : _ ≤ depth) (by omega) rfl
      simp only [List.cons_append, List.nil_append] at sequence
      simp [decodePatternTree, viewPattern, viewSpan,
        viewOption, encodeBindings_eq, viewBindings_eq, sequence, -List.length_flatMap]
      omega
  | .structVariant module typeName variant fieldBindings span => by
      intro depth deep fits rest
      obtain ⟨depth, rfl⟩ := depth_succ deep
      simp only [encodePatternTree, patternHeader, encodeStructBindings_eq, List.length_append,
        List.length_cons, List.length_nil] at deep fits
      have sequence := reads_sequence fieldBindings
        [PatternKind.structVariant.code, span.start, span.len, optionWord module,
          spurWord typeName, spurWord variant, lengthWord fieldBindings.length] rest 7
        (reads_structBindings fieldBindings) one_le_length_encodeStructBinding
        (by omega : _ ≤ depth) (by omega) rfl
      simp only [List.cons_append, List.nil_append] at sequence
      simp [decodePatternTree, viewPattern, viewSpan,
        viewOption, encodeStructBindings_eq, viewStructBindings_eq, sequence, -List.length_flatMap]
      omega
  | .tuple elems restPosition span => by
      intro depth deep fits rest
      obtain ⟨depth, rfl⟩ := depth_succ deep
      simp only [encodePatternTree, patternHeader, encodePatternTrees_eq, List.length_append,
        List.length_cons, List.length_nil] at deep fits
      have sequence := reads_sequence elems [PatternKind.tuple.code, span.start, span.len, optionWord restPosition,
          lengthWord elems.length] rest 5 (reads_trees elems) one_le_length_encodePatternTree
        (by omega : _ ≤ depth) (by omega) rfl
      simp only [List.cons_append, List.nil_append] at sequence
      simp [decodePatternTree, viewPattern, viewSpan,
        viewOption, encodePatternTrees_eq, viewPatterns_eq, sequence, -List.length_flatMap]
      omega
  | .struct module typeName fields hasRest span => by
      intro depth deep fits rest
      obtain ⟨depth, rfl⟩ := depth_succ deep
      simp only [encodePatternTree, patternHeader, encodeStructFields_eq, List.length_append,
        List.length_cons, List.length_nil] at deep fits
      have sequence := reads_sequence fields
        [PatternKind.struct.code, span.start, span.len, optionWord module, spurWord typeName,
          boolWord hasRest, lengthWord fields.length] rest 7 (reads_structFields fields)
        one_le_length_encodeStructField (by omega : _ ≤ depth) (by omega) rfl
      simp only [List.cons_append, List.nil_append] at sequence
      simp [decodePatternTree, viewPattern, viewSpan,
        viewOption, encodeStructFields_eq, viewStructFields_eq, sequence, -List.length_flatMap]
      omega

theorem reads_subPattern : ∀ (subPattern : Option RirPattern) pattern, subPattern = some pattern →
    ReadsAt decodePatternTree (encodePatternTree pattern) (viewPattern pattern)
  | none => fun pattern absent => nomatch absent
  | some inner => fun pattern present => by
      cases present
      exact reads_tree inner

theorem reads_anyBinding : ∀ binding : RirPatternBinding,
    ReadsAt (fun depth => decodeBinding (decodePatternTree depth)) (encodeBinding binding) (viewBinding binding)
  | .mk isWildcard isMut name subPattern => reads_binding (reads_subPattern subPattern)

theorem reads_trees : ∀ patterns : List RirPattern, ∀ pattern ∈ patterns,
    ReadsAt decodePatternTree (encodePatternTree pattern) (viewPattern pattern)
  | [] => fun pattern member => nomatch member
  | head :: rest => fun pattern member => by
      rcases List.mem_cons.mp member with first | later
      · rw [first]
        exact reads_tree head
      · exact reads_trees rest pattern later

theorem reads_bindings : ∀ bindings : List RirPatternBinding, ∀ binding ∈ bindings,
    ReadsAt (fun depth => decodeBinding (decodePatternTree depth)) (encodeBinding binding) (viewBinding binding)
  | [] => fun binding member => nomatch member
  | head :: rest => fun binding member => by
      rcases List.mem_cons.mp member with first | later
      · rw [first]
        exact reads_anyBinding head
      · exact reads_bindings rest binding later

theorem reads_structBindings : ∀ bindings : List RirStructPatternBinding, ∀ binding ∈ bindings,
    ReadsAt (fun depth => decodeStructBinding (decodePatternTree depth))
      (encodeStructBinding binding) (viewStructBinding binding)
  | [] => fun binding member => nomatch member
  | .mk fieldName inner :: rest => fun binding member => by
      rcases List.mem_cons.mp member with first | later
      · rw [first]
        exact reads_structBinding (reads_anyBinding inner)
      · exact reads_structBindings rest binding later

theorem reads_structFields : ∀ fields : List RirStructField, ∀ field ∈ fields,
    ReadsAt (fun depth => decodeStructField (decodePatternTree depth)) (encodeStructField field)
      (viewStructField field)
  | [] => fun field member => nomatch member
  | .mk fieldName pattern :: rest => fun field member => by
      rcases List.mem_cons.mp member with first | later
      · rw [first]
        exact reads_structField (reads_tree pattern)
      · exact reads_structFields rest field later

end

/-- How one kind of item stands in the extra array: its words, its decoder, and what
the decoder returns for them. -/
structure WordLayout (Item : Type) where
  encode : Item → List Word
  decode : Decoder Word Item
  view : Item → Item
  Valid : Item → Prop
  occupies : ∀ item, 1 ≤ (encode item).length
  reads : ∀ item, Valid item → (encode item).length < 2 ^ 32 → Reads decode (encode item) (view item)

theorem reads_matchArm (arm : RirMatchArm) (fits : (encodeMatchArm arm).length < 2 ^ 32) :
    Reads decodeMatchArm (encodeMatchArm arm) (viewPattern arm.1, arm.2) := by
  intro rest
  obtain ⟨pattern, body⟩ := arm
  cases pattern with
  | wildcard span | int value span | bool value span | ident name isMut span
  | comptimeUnrollArm binding iterable span =>
    simp [viewPattern, viewSpan]
  | path module typeName variant span =>
    simp [viewPattern, viewSpan, viewOption]
  | dataVariant module typeName variant bindings span =>
    simp only [encodeMatchArm, patternHeader, encodeBindings_eq, List.length_append,
      List.length_cons, List.length_nil] at fits
    have sequence := @reads_sequence _ _ (fun depth => decodeBinding (decodePatternTree depth))
      _ _ bindings [PatternKind.dataVariant.code, span.start, span.len, optionWord module,
        spurWord typeName, spurWord variant, body, lengthWord bindings.length] rest 8
      ((bindings.flatMap encodeBinding ++ rest).length + 8) (reads_bindings bindings)
      one_le_length_encodeBinding (by rw [List.length_append]; omega) (by omega) rfl
    simp only [List.cons_append, List.nil_append, List.length_append] at sequence
    simp [viewPattern, viewSpan, viewOption, encodeBindings_eq, viewBindings_eq, sequence, -List.length_flatMap]
    omega
  | structVariant module typeName variant fieldBindings span =>
    simp only [encodeMatchArm, patternHeader, encodeStructBindings_eq, List.length_append,
      List.length_cons, List.length_nil] at fits
    have sequence := @reads_sequence _ _ (fun depth => decodeStructBinding (decodePatternTree depth))
      _ _ fieldBindings [PatternKind.structVariant.code, span.start, span.len, optionWord module,
        spurWord typeName, spurWord variant, body, lengthWord fieldBindings.length] rest 8
      ((fieldBindings.flatMap encodeStructBinding ++ rest).length + 8)
      (reads_structBindings fieldBindings) one_le_length_encodeStructBinding
      (by rw [List.length_append]; omega) (by omega) rfl
    simp only [List.cons_append, List.nil_append, List.length_append] at sequence
    simp [viewPattern, viewSpan, viewOption,
      encodeStructBindings_eq, viewStructBindings_eq, sequence, -List.length_flatMap]
    omega
  | tuple elems restPosition span =>
    simp only [encodeMatchArm, patternHeader, encodePatternTrees_eq, List.length_append,
      List.length_cons, List.length_nil] at fits
    have sequence := @reads_sequence _ _ decodePatternTree _ _ elems
      [PatternKind.tuple.code, span.start, span.len, body, optionWord restPosition,
        lengthWord elems.length] rest 6 ((elems.flatMap encodePatternTree ++ rest).length + 6)
      (reads_trees elems) one_le_length_encodePatternTree
      (by rw [List.length_append]; omega) (by omega) rfl
    simp only [List.cons_append, List.nil_append, List.length_append] at sequence
    simp [viewPattern, viewSpan, viewOption, encodePatternTrees_eq, viewPatterns_eq, sequence, -List.length_flatMap]
    omega
  | struct module typeName fields hasRest span =>
    simp only [encodeMatchArm, patternHeader, encodeStructFields_eq, List.length_append,
      List.length_cons, List.length_nil] at fits
    have sequence := @reads_sequence _ _ (fun depth => decodeStructField (decodePatternTree depth)) _ _ fields
      [PatternKind.struct.code, span.start, span.len, body, optionWord module,
        spurWord typeName, boolWord hasRest, lengthWord fields.length] rest 8
      ((fields.flatMap encodeStructField ++ rest).length + 8)
      (reads_structFields fields) one_le_length_encodeStructField
      (by rw [List.length_append]; omega) (by omega) rfl
    simp only [List.cons_append, List.nil_append, List.length_append] at sequence
    simp [viewPattern, viewSpan, viewOption,
      encodeStructFields_eq, viewStructFields_eq, sequence, -List.length_flatMap]
    omega

theorem one_le_length_encodeMatchArm (arm : RirMatchArm) : 1 ≤ (encodeMatchArm arm).length := by
  obtain ⟨pattern, _⟩ := arm
  cases pattern <;> simp

theorem flatMap_spurWord (symbols : List Spur) :
    symbols.flatMap (fun symbol => [spurWord symbol]) = symbols.map spurWord := by
  induction symbols with
  | nil => rfl
  | cons symbol symbols ih => rw [List.flatMap_cons, ih]; rfl

theorem reads_spurs (symbols : List Spur) (before rest : List Word) :
    decodeMany decodeSpur (before ++ (symbols.map spurWord ++ rest)) symbols.length before.length =
      some (symbols, before.length + symbols.length) := by
  have each : ∀ symbol ∈ symbols, Reads decodeSpur [spurWord symbol] symbol := by
    intro symbol _ rest
    simp [decodeSpur]
  have read := @decodeMany_of_reads _ _ _ _ _ (fun symbol => symbol) symbols each before rest
  rw [flatMap_spurWord, List.append_assoc] at read
  simpa using read

theorem reads_directive (directive : RirDirective) (fits : (encodeDirective directive).length < 2 ^ 32) :
    Reads decodeDirective (encodeDirective directive)
      { directive with span := Span.new directive.span.start directive.span.len } := by
  intro rest
  have counted : (lengthWord directive.args.length).toNat = directive.args.length := by
    apply toNat_lengthWord
    simp only [encodeDirective, List.length_append, List.length_map] at fits
    omega
  have args := reads_spurs directive.args [spurWord directive.name, directive.span.start,
    directive.span.len, lengthWord directive.args.length] rest
  simp only [List.cons_append, List.nil_append, List.length_cons, List.length_nil, Nat.zero_add,
    Nat.reduceAdd] at args
  simp [decodeDirective, encodeDirective, counted, args]
  omega

theorem reads_enumVariantDecl (variant : RirEnumVariantDecl)
    (named : variant.fieldNames = [] ∨ variant.fieldNames.length = variant.fieldTypes.length)
    (fits : (encodeEnumVariantDecl variant).length < 2 ^ 32) :
    Reads decodeEnumVariantDecl (encodeEnumVariantDecl variant) variant := by
  intro rest
  obtain ⟨name, fieldTypes, fieldNames⟩ := variant
  have counted : (lengthWord fieldTypes.length).toNat = fieldTypes.length := by
    apply toNat_lengthWord
    simp only [encodeEnumVariantDecl, List.length_append, List.length_map] at fits
    omega
  by_cases plain : fieldNames = []
  · subst plain
    have types := reads_spurs fieldTypes [spurWord name, lengthWord fieldTypes.length, 0#32] rest
    simp only [List.cons_append, List.nil_append, List.length_cons, List.length_nil, Nat.zero_add,
      Nat.reduceAdd] at types
    simp [decodeEnumVariantDecl, encodeEnumVariantDecl, counted, types, boolOfWord]
    omega
  · have sameLength := named.resolve_left plain
    have types := reads_spurs fieldTypes [spurWord name, lengthWord fieldTypes.length, 1#32]
      (fieldNames.map spurWord ++ rest)
    have names := reads_spurs fieldNames ([spurWord name, lengthWord fieldTypes.length, 1#32] ++
      fieldTypes.map spurWord) rest
    simp only [List.cons_append, List.nil_append, List.length_cons, List.length_nil, Nat.zero_add,
      Nat.reduceAdd] at types
    simp only [List.cons_append, List.nil_append, List.length_cons, List.length_map, sameLength] at names
    have offset : fieldTypes.length + 1 + 1 + 1 = 3 + fieldTypes.length := by omega
    rw [offset] at names
    simp [decodeEnumVariantDecl, encodeEnumVariantDecl, counted, plain, types, names, boolOfWord, sameLength]
    omega

def matchArmLayout : WordLayout RirMatchArm where
  encode := encodeMatchArm
  decode := decodeMatchArm
  view arm := (viewPattern arm.1, arm.2)
  Valid _ := True
  occupies := one_le_length_encodeMatchArm
  reads arm _ fits := reads_matchArm arm fits

def directiveLayout : WordLayout RirDirective where
  encode := encodeDirective
  decode := decodeDirective
  view directive := { directive with span := Span.new directive.span.start directive.span.len }
  Valid _ := True
  occupies directive := by simp [encodeDirective]
  reads directive _ fits := reads_directive directive fits

def enumVariantDeclLayout : WordLayout RirEnumVariantDecl where
  encode := encodeEnumVariantDecl
  decode := decodeEnumVariantDecl
  view variant := variant
  Valid variant := variant.fieldNames = [] ∨ variant.fieldNames.length = variant.fieldTypes.length
  occupies variant := by simp [encodeEnumVariantDecl]
  reads variant named fits := reads_enumVariantDecl variant named fits

def fixedLayout {Item : Type} (encode : Item → List Word) (decode : Decoder Word Item)
    (occupies : ∀ item, 1 ≤ (encode item).length)
    (reads : ∀ item, Reads decode (encode item) item) : WordLayout Item where
  encode := encode
  decode := decode
  view item := item
  Valid _ := True
  occupies := occupies
  reads item _ _ := reads item

def paramLayout : WordLayout RirParam := fixedLayout encodeParam decodeParam (by simp [encodeParam])
    fun param rest => by simp [decodeParam, encodeParam]

def callArgLayout : WordLayout RirCallArg :=
  fixedLayout encodeCallArg decodeCallArg (by simp [encodeCallArg])
    fun arg rest => by simp [decodeCallArg, encodeCallArg]

def fieldInitLayout : WordLayout RirFieldInit :=
  fixedLayout encodeFieldInit decodeFieldInit (by simp [encodeFieldInit])
    fun field rest => by simp [decodeFieldInit, encodeFieldInit]

def fieldDeclLayout : WordLayout RirFieldDecl :=
  fixedLayout encodeFieldDecl decodeFieldDecl (by simp [encodeFieldDecl])
    fun field rest => by simp [decodeFieldDecl, encodeFieldDecl]

def destructureFieldLayout : WordLayout RirDestructureField :=
  fixedLayout encodeDestructureField decodeDestructureField (by simp [encodeDestructureField])
    fun field rest => by simp [decodeDestructureField, encodeDestructureField]

def instRefLayout : WordLayout InstRef :=
  fixedLayout (fun ref => [ref]) decodeInstRef (by simp) fun ref rest => by simp [decodeInstRef]

def symbolLayout : WordLayout Spur :=
  fixedLayout (fun symbol => [spurWord symbol]) decodeSpur (by simp) fun symbol rest => by simp [decodeSpur]

theorem WordLayout.getExtra_addExtra {Item : Type} (layout : WordLayout Item) (extra after : List Word)
    (items : List Item) (valid : ∀ item ∈ items, layout.Valid item)
    (fits : ((addExtra layout.encode extra items).1 ++ after).length < 2 ^ 32) :
    getExtra layout.decode ((addExtra layout.encode extra items).1 ++ after)
      (addExtra layout.encode extra items).2.1 (addExtra layout.encode extra items).2.2 =
        some (items.map layout.view) := by
  simp only [addExtra, List.length_append] at fits ⊢
  have counted : (lengthWord items.length).toNat = items.length := by
    apply toNat_lengthWord
    have bound := count_le_flatMap layout.occupies items
    omega
  have started : (lengthWord extra.length).toNat = extra.length := toNat_lengthWord (by omega)
  have read : ∀ item ∈ items, Reads layout.decode (layout.encode item) (layout.view item) := by
    intro item member
    apply layout.reads item (valid item member)
    have bound := @length_le_flatMap _ layout.encode _ _ member
    omega
  rw [getExtra, counted, started, decodeMany_of_reads items read extra after, Option.map_some]

theorem viewSpan_eq_iff (span : Span) : viewSpan span = span ↔ span.fileId = FileId.default := by
  obtain ⟨fileId, start, stop⟩ := span
  have back : start + (stop - start) = stop := by
    rw [BitVec.add_comm, BitVec.sub_add_cancel]
  simp [viewSpan, Span.new, Span.len, back, eq_comm]

theorem viewOption_eq_iff (value : Option Word) : viewOption value = value ↔ value ≠ some wordMax := by
  cases value with
  | none => simp [viewOption, optionWord, optionOfWord]
  | some word =>
    by_cases top : word = wordMax <;> simp [viewOption, optionWord, optionOfWord, top]

theorem directiveSpan_eq_iff (span : Span) :
    Span.new span.start span.len = span ↔ span.fileId = FileId.default ∧ span.start = 0 := by
  obtain ⟨fileId, start, stop⟩ := span
  have length : stop - start = stop ↔ start = 0#32 := by
    constructor
    · bv_omega
    · rintro rfl
      exact BitVec.sub_zero stop
  simp only [Span.new, Span.len, Span.mk.injEq, true_and, length]
  constructor
  · rintro ⟨file, zero⟩
    exact ⟨file.symm, zero⟩
  · rintro ⟨file, zero⟩
    exact ⟨file.symm, zero⟩

mutual

/-- Every span lies in the default file and no optional reference has the index that
stands for its absence. -/
def RirPattern.InDefaultFile : RirPattern → Prop
  | .wildcard span => span.fileId = FileId.default
  | .int _ span => span.fileId = FileId.default
  | .bool _ span => span.fileId = FileId.default
  | .path module _ _ span => module ≠ some wordMax ∧ span.fileId = FileId.default
  | .dataVariant module _ _ bindings span =>
    module ≠ some wordMax ∧ bindingsInDefaultFile bindings ∧ span.fileId = FileId.default
  | .structVariant module _ _ fieldBindings span =>
    module ≠ some wordMax ∧ structBindingsInDefaultFile fieldBindings ∧ span.fileId = FileId.default
  | .ident _ _ span => span.fileId = FileId.default
  | .tuple elems restPosition span =>
    patternsInDefaultFile elems ∧ restPosition ≠ some wordMax ∧ span.fileId = FileId.default
  | .struct module _ fields _ span =>
    module ≠ some wordMax ∧ structFieldsInDefaultFile fields ∧ span.fileId = FileId.default
  | .comptimeUnrollArm _ _ span => span.fileId = FileId.default

def RirPatternBinding.InDefaultFile : RirPatternBinding → Prop
  | .mk _ _ _ subPattern => subPatternInDefaultFile subPattern

def subPatternInDefaultFile : Option RirPattern → Prop
  | none => True
  | some pattern => pattern.InDefaultFile

def RirStructPatternBinding.InDefaultFile : RirStructPatternBinding → Prop
  | .mk _ binding => binding.InDefaultFile

def RirStructField.InDefaultFile : RirStructField → Prop
  | .mk _ pattern => pattern.InDefaultFile

def patternsInDefaultFile : List RirPattern → Prop
  | [] => True
  | pattern :: patterns => pattern.InDefaultFile ∧ patternsInDefaultFile patterns

def bindingsInDefaultFile : List RirPatternBinding → Prop
  | [] => True
  | binding :: bindings => binding.InDefaultFile ∧ bindingsInDefaultFile bindings

def structBindingsInDefaultFile : List RirStructPatternBinding → Prop
  | [] => True
  | binding :: bindings => binding.InDefaultFile ∧ structBindingsInDefaultFile bindings

def structFieldsInDefaultFile : List RirStructField → Prop
  | [] => True
  | field :: fields => field.InDefaultFile ∧ structFieldsInDefaultFile fields

end

mutual

theorem viewPattern_eq_iff : ∀ pattern : RirPattern, viewPattern pattern = pattern ↔ pattern.InDefaultFile
  | .wildcard _ | .int _ _ | .bool _ _
  | .ident _ _ _ => by simp [viewPattern, RirPattern.InDefaultFile, viewSpan_eq_iff]
  | .path module typeName variant span => by
      simp [viewPattern, RirPattern.InDefaultFile, viewSpan_eq_iff, viewOption_eq_iff]
  | .dataVariant module typeName variant bindings span => by
      simp [viewPattern, RirPattern.InDefaultFile, viewSpan_eq_iff, viewOption_eq_iff, viewBindings_eq_iff bindings]
  | .structVariant module typeName variant fieldBindings span => by
      simp [viewPattern, RirPattern.InDefaultFile, viewSpan_eq_iff, viewOption_eq_iff,
        viewStructBindings_eq_iff fieldBindings]
  | .tuple elems restPosition span => by
      simp [viewPattern, RirPattern.InDefaultFile, viewSpan_eq_iff, viewOption_eq_iff, viewPatterns_eq_iff elems]
  | .struct module typeName fields hasRest span => by
      simp [viewPattern, RirPattern.InDefaultFile, viewSpan_eq_iff, viewOption_eq_iff, viewStructFields_eq_iff fields]
  | .comptimeUnrollArm binding iterable span => by
      simp [viewPattern, RirPattern.InDefaultFile, viewSpan_eq_iff]

theorem viewBinding_eq_iff : ∀ binding : RirPatternBinding, viewBinding binding = binding ↔ binding.InDefaultFile
  | .mk isWildcard isMut name subPattern => by
      simp [viewBinding, RirPatternBinding.InDefaultFile, viewSubPattern_eq_iff subPattern]

theorem viewSubPattern_eq_iff : ∀ subPattern : Option RirPattern,
    viewSubPattern subPattern = subPattern ↔ subPatternInDefaultFile subPattern
  | none => by simp [viewSubPattern, subPatternInDefaultFile]
  | some pattern => by
      simp [viewSubPattern, subPatternInDefaultFile, viewPattern_eq_iff pattern]

theorem viewStructBinding_eq_iff : ∀ binding : RirStructPatternBinding,
    viewStructBinding binding = binding ↔ binding.InDefaultFile
  | .mk fieldName binding => by
      simp [viewStructBinding, RirStructPatternBinding.InDefaultFile, viewBinding_eq_iff binding]

theorem viewStructField_eq_iff : ∀ field : RirStructField, viewStructField field = field ↔ field.InDefaultFile
  | .mk fieldName pattern => by
      simp [viewStructField, RirStructField.InDefaultFile, viewPattern_eq_iff pattern]

theorem viewPatterns_eq_iff : ∀ patterns : List RirPattern,
    viewPatterns patterns = patterns ↔ patternsInDefaultFile patterns
  | [] => by simp [viewPatterns, patternsInDefaultFile]
  | pattern :: patterns => by
      simp [viewPatterns, patternsInDefaultFile, viewPattern_eq_iff pattern, viewPatterns_eq_iff patterns]

theorem viewBindings_eq_iff : ∀ bindings : List RirPatternBinding,
    viewBindings bindings = bindings ↔ bindingsInDefaultFile bindings
  | [] => by simp [viewBindings, bindingsInDefaultFile]
  | binding :: bindings => by
      simp [viewBindings, bindingsInDefaultFile, viewBinding_eq_iff binding, viewBindings_eq_iff bindings]

theorem viewStructBindings_eq_iff : ∀ bindings : List RirStructPatternBinding,
    viewStructBindings bindings = bindings ↔ structBindingsInDefaultFile bindings
  | [] => by simp [viewStructBindings, structBindingsInDefaultFile]
  | binding :: bindings => by
      simp [viewStructBindings, structBindingsInDefaultFile, viewStructBinding_eq_iff binding,
        viewStructBindings_eq_iff bindings]

theorem viewStructFields_eq_iff : ∀ fields : List RirStructField,
    viewStructFields fields = fields ↔ structFieldsInDefaultFile fields
  | [] => by simp [viewStructFields, structFieldsInDefaultFile]
  | field :: fields => by
      simp [viewStructFields, structFieldsInDefaultFile, viewStructField_eq_iff field, viewStructFields_eq_iff fields]

end

inductive RirPayload
  | matchArms (arms : List RirMatchArm)
  | directives (items : List RirDirective)
  | params (items : List RirParam)
  | callArgs (args : List RirCallArg)
  | fieldInits (fields : List RirFieldInit)
  | fieldDecls (fields : List (Spur × Spur))
  | fieldDeclsWithVis (fields : List RirFieldDecl)
  | enumVariantDecls (variants : List RirEnumVariantDecl)
  | destructureFields (fields : List RirDestructureField)
  | instRefs (refs : List InstRef)
  | symbols (items : List Spur)

namespace RirPayload

def add (extra : List Word) : RirPayload → List Word × Word × Word
  | .matchArms arms => addMatchArms extra arms
  | .directives items => addDirectives extra items
  | .params items => addParams extra items
  | .callArgs args => addCallArgs extra args
  | .fieldInits fields => addFieldInits extra fields
  | .fieldDecls fields => addFieldDecls extra fields
  | .fieldDeclsWithVis fields => addFieldDeclsWithVis extra fields
  | .enumVariantDecls variants => addEnumVariantDecls extra variants
  | .destructureFields fields => addDestructureFields extra fields
  | .instRefs refs => addInstRefs extra refs
  | .symbols items => addSymbols extra items

def read (extra : List Word) (start count : Word) : RirPayload → Option RirPayload
  | .matchArms _ => (getMatchArms extra start count).map .matchArms
  | .directives _ => (getDirectives extra start count).map .directives
  | .params _ => (getParams extra start count).map .params
  | .callArgs _ => (getCallArgs extra start count).map .callArgs
  | .fieldInits _ => (getFieldInits extra start count).map .fieldInits
  | .fieldDecls _ => (getFieldDecls extra start count).map .fieldDecls
  | .fieldDeclsWithVis _ => (getFieldDeclsWithVis extra start count).map .fieldDeclsWithVis
  | .enumVariantDecls _ => (getEnumVariantDecls extra start count).map .enumVariantDecls
  | .destructureFields _ => (getDestructureFields extra start count).map .destructureFields
  | .instRefs _ => (getInstRefs extra start count).map .instRefs
  | .symbols _ => (getSymbols extra start count).map .symbols

def Valid : RirPayload → Prop
  | .enumVariantDecls variants => ∀ variant ∈ variants,
      variant.fieldNames = [] ∨ variant.fieldNames.length = variant.fieldTypes.length
  | _ => True

/-- Spans lie in the default file, directives start at its first byte, and no
optional reference has index `u32::MAX`. -/
def InDefaultFile : RirPayload → Prop
  | .matchArms arms => ∀ arm ∈ arms, arm.1.InDefaultFile
  | .directives items => ∀ directive ∈ items, directive.span.fileId = FileId.default ∧ directive.span.start = 0
  | _ => True

def addAll (extra : List Word) : List RirPayload → List Word × List (RirPayload × Word × Word)
  | [] => (extra, [])
  | payload :: payloads =>
    let (added, start, count) := payload.add extra
    let (final, handles) := addAll added payloads
    (final, (payload, start, count) :: handles)

theorem add_extends (extra : List Word) (payload : RirPayload) : ∃ words, (payload.add extra).1 = extra ++ words := by
  cases payload <;> exact ⟨_, rfl⟩

theorem addAll_extends (payloads : List RirPayload) (extra : List Word) :
    ∃ words, (addAll extra payloads).1 = extra ++ words := by
  induction payloads generalizing extra with
  | nil => exact ⟨[], (List.append_nil extra).symm⟩
  | cons payload payloads ih =>
    obtain ⟨first, added⟩ := add_extends extra payload
    obtain ⟨later, rest⟩ := ih (payload.add extra).1
    refine ⟨first ++ later, ?_⟩
    rw [← List.append_assoc, ← added, ← rest]
    rfl

theorem map_eq_self_iff {Item : Type} {view : Item → Item} {Plain : Item → Prop}
    (each : ∀ item, view item = item ↔ Plain item) (items : List Item) :
    items.map view = items ↔ ∀ item ∈ items, Plain item := by
  induction items with
  | nil => simp
  | cons item items ih => simp [each, ih]

def readAdded (extra after : List Word) (payload : RirPayload) : Option RirPayload :=
  payload.read ((payload.add extra).1 ++ after) (payload.add extra).2.1 (payload.add extra).2.2

attribute [local simp] InDefaultFile fixedLayout

theorem readAdded_iff (payload : RirPayload) (valid : payload.Valid) (extra after : List Word)
    (fits : ((payload.add extra).1 ++ after).length < 2 ^ 32) :
    readAdded extra after payload = some payload ↔ payload.InDefaultFile := by
  cases payload with
  | matchArms arms =>
    have back := matchArmLayout.getExtra_addExtra extra after arms (fun _ _ => trivial) fits
    have read : readAdded extra after (.matchArms arms) =
        some (.matchArms (arms.map matchArmLayout.view)) := congrArg (Option.map _) back
    have plain : ∀ arm : RirMatchArm, matchArmLayout.view arm = arm ↔ arm.1.InDefaultFile := by
      intro arm
      rw [← viewPattern_eq_iff]
      simp [matchArmLayout, Prod.ext_iff]
    rw [read, InDefaultFile, ← map_eq_self_iff plain]
    simp
  | directives items =>
    have back := directiveLayout.getExtra_addExtra extra after items (fun _ _ => trivial) fits
    have read : readAdded extra after (.directives items) =
        some (.directives (items.map directiveLayout.view)) := congrArg (Option.map _) back
    have plain : ∀ directive : RirDirective, directiveLayout.view directive = directive ↔
        directive.span.fileId = FileId.default ∧ directive.span.start = 0 := by
      intro directive
      rw [← directiveSpan_eq_iff]
      cases directive
      simp [directiveLayout]
    rw [read, InDefaultFile, ← map_eq_self_iff plain]
    simp
  | params items =>
    have back := paramLayout.getExtra_addExtra extra after items (fun _ _ => trivial) fits
    have read : readAdded extra after (.params items) =
        some (.params (items.map paramLayout.view)) := congrArg (Option.map _) back
    simp [read, paramLayout]
  | callArgs args =>
    have back := callArgLayout.getExtra_addExtra extra after args (fun _ _ => trivial) fits
    have read : readAdded extra after (.callArgs args) =
        some (.callArgs (args.map callArgLayout.view)) := congrArg (Option.map _) back
    simp [read, callArgLayout]
  | fieldInits fields =>
    have back := fieldInitLayout.getExtra_addExtra extra after fields (fun _ _ => trivial) fits
    have read : readAdded extra after (.fieldInits fields) =
        some (.fieldInits (fields.map fieldInitLayout.view)) := congrArg (Option.map _) back
    simp [read, fieldInitLayout]
  | fieldDecls fields =>
    have back := fieldDeclLayout.getExtra_addExtra extra after (fields.map privateField) (fun _ _ => trivial) fits
    have read : readAdded extra after (.fieldDecls fields) = some (.fieldDecls
        (((fields.map privateField).map fieldDeclLayout.view).map fieldWithoutVis)) :=
      congrArg (fun found => (found.map (List.map fieldWithoutVis)).map fieldDecls) back
    simp [read, fieldDeclLayout, Function.comp_def, privateField, fieldWithoutVis]
  | fieldDeclsWithVis fields =>
    have back := fieldDeclLayout.getExtra_addExtra extra after fields (fun _ _ => trivial) fits
    have read : readAdded extra after (.fieldDeclsWithVis fields) =
        some (.fieldDeclsWithVis (fields.map fieldDeclLayout.view)) := congrArg (Option.map _) back
    simp [read, fieldDeclLayout]
  | enumVariantDecls variants =>
    have back := enumVariantDeclLayout.getExtra_addExtra extra after variants valid fits
    have read : readAdded extra after (.enumVariantDecls variants) =
        some (.enumVariantDecls (variants.map enumVariantDeclLayout.view)) :=
      congrArg (Option.map _) back
    simp [read, enumVariantDeclLayout]
  | destructureFields fields =>
    have back :=
      destructureFieldLayout.getExtra_addExtra extra after fields (fun _ _ => trivial) fits
    have read : readAdded extra after (.destructureFields fields) =
        some (.destructureFields (fields.map destructureFieldLayout.view)) :=
      congrArg (Option.map _) back
    simp [read, destructureFieldLayout]
  | instRefs refs =>
    have back := instRefLayout.getExtra_addExtra extra after refs (fun _ _ => trivial) fits
    have read : readAdded extra after (.instRefs refs) =
        some (.instRefs (refs.map instRefLayout.view)) := congrArg (Option.map _) back
    simp [read, instRefLayout]
  | symbols items =>
    have back := symbolLayout.getExtra_addExtra extra after items (fun _ _ => trivial) fits
    have read : readAdded extra after (.symbols items) =
        some (.symbols (items.map symbolLayout.view)) := congrArg (Option.map _) back
    simp [read, symbolLayout]

end RirPayload

open RirPayload in
/-- Any lists appended in any order to one array: a list reads back from the
finished array exactly when its spans survive the two ways they are stored. -/
theorem rirPayload_reads_back_iff (extra : List Word) (payloads : List RirPayload)
    (valid : ∀ payload ∈ payloads, payload.Valid)
    (fits : (addAll extra payloads).1.length < 2 ^ 32) (payload : RirPayload) (start count : Word)
    (stored : (payload, start, count) ∈ (addAll extra payloads).2) :
    payload.read (addAll extra payloads).1 start count = some payload ↔ payload.InDefaultFile := by
  induction payloads generalizing extra with
  | nil => cases stored
  | cons head rest ih =>
    obtain ⟨later, final⟩ := addAll_extends rest (head.add extra).1
    rcases List.mem_cons.mp stored with here | there
    · cases here
      have whole : (addAll extra (payload :: rest)).1 = (payload.add extra).1 ++ later := final
      rw [whole] at fits ⊢
      exact readAdded_iff payload (valid payload (.head _)) extra later fits
    · exact ih (head.add extra).1 (fun other member => valid other (.tail _ member)) fits there

def plainArm : RirPayload :=
  .matchArms [(.tuple [.int (-7) (Span.new 2 4), .wildcard (Span.new 6 7)] none (Span.new 1 8), 5)]

open RirPayload in
theorem plainArm_reads_back : plainArm.read (addAll [] [plainArm, .symbols [3, 4]]).1 0 1 = some plainArm := by
  refine (rirPayload_reads_back_iff [] [plainArm, .symbols [3, 4]] ?_ (by decide) plainArm 0 1
    (List.mem_cons_self)).mpr ?_
  · intro _ member
    simp only [List.mem_cons, List.not_mem_nil, or_false] at member
    rcases member with rfl | rfl <;> trivial
  · intro _ member
    simp only [List.mem_singleton] at member
    subst member
    simp [RirPattern.InDefaultFile, patternsInDefaultFile, Span.new]

open RirPayload in
/-- A directive at bytes 10 to 20 of file 3 comes back as bytes 10 to 10 of the
default file, and a wildcard of that file comes back in the default one. -/
theorem not_reads_back_in_file : (directives [⟨0, [], Span.withFile 3 10 20⟩]).read
        (addAll [] [directives [⟨0, [], Span.withFile 3 10 20⟩]]).1 0 1 =
      some (directives [⟨0, [], Span.new 10 10⟩]) ∧
    (matchArms [(.wildcard (Span.withFile 3 10 20), 0)]).read
        (addAll [] [matchArms [(.wildcard (Span.withFile 3 10 20), 0)]]).1 0 1 =
      some (matchArms [(.wildcard (Span.new 10 20), 0)]) ∧
    (directives [⟨0, [], Span.withFile 3 10 20⟩]).read
        (addAll [] [directives [⟨0, [], Span.withFile 3 10 20⟩]]).1 0 1 ≠
      some (directives [⟨0, [], Span.withFile 3 10 20⟩]) := by
  have directive : (directives [⟨0, [], Span.withFile 3 10 20⟩]).read
      (addAll [] [directives [⟨0, [], Span.withFile 3 10 20⟩]]).1 0 1 =
        some (directives [⟨0, [], Span.new 10 10⟩]) := rfl
  refine ⟨directive, rfl, ?_⟩
  rw [directive]
  simp [Span.new, Span.withFile, FileId.default]

end Gruel
