import Mathlib.Data.Set.Function
import Gruel.Ast
import Gruel.CacheCore
import Gruel.Lib.ContentStore

/-!
The parse cache over whole histories of builds.
-/

namespace Gruel

namespace Cache

open Ast Framing

variable {extended : Interner} {symbol : Nat} {strings : List String}

theorem length_leBytes (width value : Nat) : (leBytes width value).length = width := by
  induction width generalizing value with
  | zero => rfl
  | succ width ih => simp [leBytes, ih]

theorem leBytes_inj {width first second : Nat} (firstFits : first < 256 ^ width)
    (secondFits : second < 256 ^ width) (same : leBytes width first = leBytes width second) :
    first = second := by
  induction width generalizing first second with
  | zero =>
    omega
  | succ width ih =>
    simp only [leBytes, List.cons.injEq] at same
    have low : first % 256 = second % 256 := by
      have bytes := congrArg UInt8.toNat same.1
      simpa using bytes
    have high : first / 256 = second / 256 := by
      refine ih ?_ ?_ same.2
      · omega
      · omega
    omega

theorem lengthPrefixes : Prefixes (leBytes 8) (2 ^ 64) where
  width := ⟨8, by omega, length_leBytes 8⟩
  injective := fun firstFits secondFits same => leBytes_inj firstFits secondFits same

theorem Text.ext_bytes {first second : Text} (same : first.bytes = second.bytes) : first = second := by
  cases first
  cases same
  rfl

theorem CacheKey.ext_bytes {first second : CacheKey} (same : first.bytes = second.bytes) : first = second := by
  cases first
  cases same
  rfl

theorem mixed_foldl_updateStr (texts : List Text) (hasher : Hasher) : (texts.foldl Hasher.updateStr hasher).mixed =
      hasher.mixed ++ frames (leBytes 8) (texts.map Text.bytes) := by
  induction texts generalizing hasher with
  | nil => simp [frames]
  | cons text texts ih =>
    rw [List.foldl_cons, ih]
    simp [Hasher.updateStr, Hasher.update, frames]

theorem texts_inj {first second : List Text} (same : frames (leBytes 8) (first.map Text.bytes) =
      frames (leBytes 8) (second.map Text.bytes)) : first = second := by
  have fits : ∀ texts : List Text, ∀ item ∈ texts.map Text.bytes, item.length < 2 ^ 64 := by
    intro texts item member
    obtain ⟨text, _, rfl⟩ := List.mem_map.mp member
    exact text.fits
  have sameBytes := frames_inj lengthPrefixes (fits first) (fits second) same
  exact List.map_injective_iff.mpr (fun _ _ => Text.ext_bytes) sameBytes

theorem fingerprintHasher_inj {first second : BuildOptions}
    (same : (fingerprintHasher first).mixed = (fingerprintHasher second).mixed) :
    first = second := by
  simp only [fingerprintHasher, mixed_foldl_updateStr, Hasher.updateU32, Hasher.updateStr,
    Hasher.update, List.nil_append, List.append_assoc] at same
  obtain ⟨sameCompiler, same⟩ := List.append_inj same
    (by rw [first.compilerFp.length_eq, second.compilerFp.length_eq])
  obtain ⟨sameTarget, same⟩ :=
    frame_append_inj lengthPrefixes first.target.fits second.target.fits same
  obtain ⟨sameLevel, sameFeatures⟩ := List.append_inj same (by rw [length_leBytes, length_leBytes])
  have sameFeatures := texts_inj sameFeatures
  have sameLevel : first.optLevel = second.optLevel := by
    revert sameLevel
    cases first.optLevel <;> cases second.optLevel <;> decide
  cases first
  cases second
  simp_all only [BuildOptions.mk.injEq, and_true]
  exact ⟨CacheKey.ext_bytes sameCompiler, Text.ext_bytes sameTarget⟩

theorem getOrIntern_spec (interner : Interner) (string : String) : interner <+: (getOrIntern interner string).2 ∧
      (getOrIntern interner string).2[(getOrIntern interner string).1]? = some string := by
  unfold getOrIntern
  cases found : interner.findIdx? (· == string) with
  | some symbol =>
    refine ⟨List.prefix_rfl, ?_⟩
    obtain ⟨inside, matched, _⟩ := List.findIdx?_eq_some_iff_getElem.mp found
    have same : interner[symbol] = string := by simpa using matched
    simp [List.getElem?_eq_getElem inside, same]
  | none => exact ⟨List.prefix_append _ _, by simp⟩

theorem getElem?_of_isPrefix {interner : Interner} (grows : interner <+: extended) {string : String}
    (present : interner[symbol]? = some string) : extended[symbol]? = some string := by
  obtain ⟨_, rfl⟩ := grows
  have inside : symbol < interner.length := (List.getElem?_eq_some_iff.mp present).1
  rw [List.getElem?_append_left inside]
  exact present

theorem restoreStrings_spec (strings : List String) (target : Interner) :
    target <+: (restoreStrings strings target).2 ∧ ∀ (index : Nat) string, strings[index]? = some string →
        ∃ symbol, (restoreStrings strings target).1[index]? = some symbol ∧
          (restoreStrings strings target).2[symbol]? = some string := by
  induction strings generalizing target with
  | nil => exact ⟨List.prefix_rfl, fun index string present => by simp at present⟩
  | cons first strings ih =>
    obtain ⟨grows, resolved⟩ := getOrIntern_spec target first
    obtain ⟨growsOn, others⟩ := ih (getOrIntern target first).2
    refine ⟨grows.trans growsOn, fun index string present => ?_⟩
    cases index with
    | zero =>
      simp only [List.getElem?_cons_zero, Option.some.injEq] at present
      subst present
      exact ⟨_, rfl, getElem?_of_isPrefix growsOn resolved⟩
    | succ index =>
      exact others index string present

def renumber (table : List Nat) (symbol : Nat) : Nat := (table[symbol]?).getD 0

theorem remapSpurs_restored {tree : Ast.Tree Nat} (conforms : tree.conforms (.node .ast) = true)
    (interned : ∀ symbol ∈ tree.spurs, symbol < strings.length) (target : Interner) :
    remapSpurs (restoreStrings strings target).1 tree =
      some (tree.map (renumber (restoreStrings strings target).1)) := by
  refine remapSpurs_eq_map tree _ conforms fun symbol member => ?_
  obtain ⟨_, entry, _⟩ := (restoreStrings_spec strings target).2 symbol _
      (List.getElem?_eq_getElem (interned symbol member))
  simp [renumber, entry]

theorem renumber_resolves {target : Interner}
    (growsOn : (restoreStrings strings target).2 <+: extended) (inside : symbol < strings.length) :
    extended[renumber (restoreStrings strings target).1 symbol]? = strings[symbol]? := by
  have present := List.getElem?_eq_getElem inside
  obtain ⟨_, entry, resolved⟩ :=
    (restoreStrings_spec strings target).2 symbol _ present
  rw [present, renumber, entry, Option.getD_some]
  exact getElem?_of_isPrefix growsOn resolved

theorem remap_resolves {output : CachedParseOutput} (conforms : output.ast.conforms (.node .ast) = true)
    (interned : ∀ symbol ∈ output.ast.spurs, symbol < output.interner.strings.length)
    (target : Interner) :
    target <+: (output.interner.restoreInto target).2 ∧
      ∃ ast, remapSpurs (output.interner.restoreInto target).1 output.ast = some ast ∧
        ∀ extended, (output.interner.restoreInto target).2 <+: extended →
          resolve extended ast = resolve output.interner.strings output.ast := by
  refine ⟨(restoreStrings_spec _ target).1, _, remapSpurs_restored conforms interned target, ?_⟩
  intro extended growsOn
  unfold resolve
  rw [Ast.Tree.map_map]
  exact Ast.Tree.map_congr _ fun symbol member => renumber_resolves growsOn (interned symbol member)

/-- Capturing the interner of a file, restoring it into any other interner and renumbering the
file's tree changes nothing but symbols, and each symbol has the string it had before. -/
theorem remap_exact {tree : Ast.Tree Nat} {file : Interner} (conforms : tree.conforms (.node .ast) = true)
    (interned : ∀ symbol ∈ tree.spurs, symbol < file.length) (build : Interner) :
    build <+: ((InternerSnapshot.capture file).restoreInto build).2 ∧
      ∃ rename : Nat → Nat, remapSpurs ((InternerSnapshot.capture file).restoreInto build).1 tree =
            some (tree.map rename) ∧
          (∀ symbol ∈ tree.spurs,
            ((InternerSnapshot.capture file).restoreInto build).2[rename symbol]? = file[symbol]?) ∧
          resolve ((InternerSnapshot.capture file).restoreInto build).2 (tree.map rename) = resolve file tree := by
  have strings : ∀ symbol ∈ tree.spurs, ((InternerSnapshot.capture file).restoreInto build).2[
        renumber ((InternerSnapshot.capture file).restoreInto build).1 symbol]? = file[symbol]? :=
    fun symbol member => renumber_resolves List.prefix_rfl (interned symbol member)
  refine ⟨(restoreStrings_spec file build).1, renumber ((InternerSnapshot.capture file).restoreInto build).1,
    remapSpurs_restored conforms interned build, strings, ?_⟩
  unfold resolve
  rw [Ast.Tree.map_map]
  exact Ast.Tree.map_congr _ strings

abbrev ParseInput := BuildOptions × SourceFile

def inputKey (blake3 : Bytes → CacheKey) (input : ParseInput) : CacheKey :=
  parseKey blake3 (buildFingerprint blake3 input.1) input.2.source

/-- Everything that is hashed for these files. -/
def hashedFor (blake3 : Bytes → CacheKey) (inputs : Set ParseInput) : Set Bytes :=
  { bytes | ∃ input ∈ inputs, bytes = (fingerprintHasher input.1).mixed ∨ bytes = input.2.source.bytes ∨
    bytes = (parseKeyHasher blake3 (buildFingerprint blake3 input.1) input.2.source).mixed }

/-- Two files with the same text, met under the same options, have the same id. -/
def TextsKeepIds (inputs : Set ParseInput) : Prop :=
  ∀ first ∈ inputs, ∀ second ∈ inputs, first.1 = second.1 →
    first.2.source = second.2.source → first.2.fileId = second.2.fileId

section Entries

variable {blake3 : Bytes → CacheKey} {inputs : Set ParseInput}

theorem inputKey_inj (noCollisions : Set.InjOn blake3 (hashedFor blake3 inputs))
    {first second : ParseInput} (firstMember : first ∈ inputs) (secondMember : second ∈ inputs)
    (same : inputKey blake3 first = inputKey blake3 second) :
    first.1 = second.1 ∧ first.2.source = second.2.source := by
  have sameMixed := noCollisions ⟨first, firstMember, .inr (.inr rfl)⟩ ⟨second, secondMember, .inr (.inr rfl)⟩ same
  simp only [parseKeyHasher, Hasher.update, List.nil_append] at sameMixed
  obtain ⟨sameFp, sameFile⟩ := List.append_inj sameMixed (by
    rw [(buildFingerprint blake3 first.1).length_eq, (buildFingerprint blake3 second.1).length_eq])
  have sameOptions := noCollisions ⟨first, firstMember, .inl rfl⟩
    ⟨second, secondMember, .inl rfl⟩ (CacheKey.ext_bytes sameFp)
  have sameSource := noCollisions ⟨first, firstMember, .inr (.inl rfl)⟩
    ⟨second, secondMember, .inr (.inl rfl)⟩ (CacheKey.ext_bytes sameFile)
  exact ⟨fingerprintHasher_inj sameOptions, Text.ext_bytes sameSource⟩

section History

variable {Errors : Type} {codec : Codec CachedParseOutput} {frontEnd : FrontEnd Errors}
variable {store : CacheStore}

def yieldsParse (codec : Codec CachedParseOutput) (frontEnd : FrontEnd Errors)
    (input : ParseInput) (bytes : Bytes) : Prop :=
  ∃ output, parseUncached frontEnd input.1 input.2 = .ok output ∧ codec.encode output = some bytes

def Stocked (blake3 : Bytes → CacheKey) (codec : Codec CachedParseOutput)
    (frontEnd : FrontEnd Errors) (inputs : Set ParseInput) (store : CacheStore) : Prop :=
  ContentStore.Written (inputKey blake3) (yieldsParse codec frontEnd) inputs (store.entries .parse)

theorem entries_put (store : CacheStore) {disk : Disk} (writable : disk.writable = true)
    (kind : CacheKind) (key : CacheKey) (data : Bytes) (place : CacheKey) :
    (store.put disk kind key data).entries kind place =
      if place = key then some data else store.entries kind place := by
  simp [CacheStore.put, writable]

variable (noCollisions : Set.InjOn blake3 (hashedFor blake3 inputs)) (keepIds : TextsKeepIds inputs)

include noCollisions keepIds

theorem parseUncached_of_inputKey {first second : ParseInput} (firstMember : first ∈ inputs)
    (secondMember : second ∈ inputs) (same : inputKey blake3 first = inputKey blake3 second) :
    parseUncached frontEnd first.1 first.2 = parseUncached frontEnd second.1 second.2 := by
  obtain ⟨sameOptions, sameSource⟩ := inputKey_inj noCollisions firstMember secondMember same
  have sameId := keepIds first firstMember second secondMember sameOptions sameSource
  simp [parseUncached, sameOptions, sameSource, sameId]

theorem loadParse_spec {options : BuildOptions} {source : SourceFile}
    (member : (options, source) ∈ inputs) (disk : Disk)
    (stocked : Stocked blake3 codec frontEnd inputs store) :
    (loadParse blake3 codec frontEnd options source disk store).1 = parseUncached frontEnd options source ∧
      Stocked blake3 codec frontEnd inputs (loadParse blake3 codec frontEnd options source disk store).2 := by
  have determined : ∀ other ∈ inputs, inputKey blake3 other = inputKey blake3 (options, source) →
      ∀ bytes, yieldsParse codec frontEnd other bytes → yieldsParse codec frontEnd (options, source) bytes := by
    rintro other otherMember sameKey bytes ⟨output, parsed, encoded⟩
    refine ⟨output, ?_, encoded⟩
    rw [← parseUncached_of_inputKey noCollisions keepIds otherMember member sameKey]
    exact parsed
  unfold loadParse CacheStore.get
  cases readable : disk.readable with
  | false => exact ⟨rfl, stocked⟩
  | true =>
    simp only
    split
    case h_1 bytes lookedUp =>
        obtain ⟨output, parsed, encoded⟩ := stocked.lookup determined (Except.ok.inj lookedUp)
        rw [codec.decode_encode encoded]
        exact ⟨parsed.symm, stocked⟩
    case h_2 lookedUp =>
        cases parsed : parseUncached frontEnd options source with
        | error errors => exact ⟨rfl, stocked⟩
        | ok output =>
          dsimp only
          cases encoded : codec.encode output with
          | none => exact ⟨rfl, stocked⟩
          | some bytes =>
            refine ⟨rfl, ?_⟩
            cases writable : disk.writable with
            | false => simpa [CacheStore.put, writable] using stocked
            | true =>
              exact stocked.insert member ⟨output, parsed, encoded⟩ (entries_put store writable .parse _ bytes)
    case h_3 failed => cases failed

theorem parseFilesInto_spec {options : BuildOptions} (sources : List (SourceFile × Disk))
    (members : ∀ entry ∈ sources, (options, entry.1) ∈ inputs) (interner : Interner)
    (stocked : Stocked blake3 codec frontEnd inputs store) :
    Stocked blake3 codec frontEnd inputs (parseFilesInto blake3 codec frontEnd options sources interner store).2 ∧
      match sources.mapM fun entry => parseFileDirectly frontEnd options entry.1 with
      | .error failure =>
        (parseFilesInto blake3 codec frontEnd options sources interner store).1 = .error failure
      | .ok resolved => ∃ files after,
          (parseFilesInto blake3 codec frontEnd options sources interner store).1 = .ok (files, after) ∧
          ∀ extended, after <+: extended →
            interner <+: extended ∧ files.map (ParsedFile.resolve extended) = resolved := by
  induction sources generalizing interner store with
  | nil => exact ⟨stocked, [], interner, rfl, fun _ grows => ⟨grows, rfl⟩⟩
  | cons entry sources ih =>
    obtain ⟨source, disk⟩ := entry
    obtain ⟨loaded, stockedNext⟩ := loadParse_spec noCollisions keepIds
      (members (source, disk) (.head _)) disk stocked
    have membersNext : ∀ other ∈ sources, (options, other.1) ∈ inputs :=
      fun other member => members other (.tail _ member)
    cases load : loadParse blake3 codec frontEnd options source disk store with
    | mk result storeNext =>
      rw [load] at loaded stockedNext
      cases result with
      | error errors =>
        have direct : parseFileDirectly frontEnd options source =
            .error (.errors errors) := by simp [parseFileDirectly, ← loaded]
        simp only [parseFilesInto, load, List.mapM_cons, direct]
        exact ⟨stockedNext, rfl⟩
      | ok output =>
        have direct : parseFileDirectly frontEnd options source =
            .ok ⟨source.path, source.fileId, resolve output.interner.strings output.ast⟩ := by
          simp [parseFileDirectly, ← loaded]
        simp only [parseFilesInto, load, List.mapM_cons, direct]
        have parsed : frontEnd.parse options.previewFeatures source.source source.fileId = .ok output := loaded.symm
        obtain ⟨grows, ast, remapped, resolves⟩ :=
          remap_resolves (frontEnd.conforms parsed) (frontEnd.interned parsed) interner
        obtain ⟨stockedAfter, rest⟩ := ih membersNext (output.interner.restoreInto interner).2 stockedNext
        simp only [remapped]
        cases ran : parseFilesInto blake3 codec frontEnd options sources
            (output.interner.restoreInto interner).2 storeNext with
        | mk others storeAfter =>
          rw [ran] at stockedAfter rest
          cases directRest : sources.mapM fun entry => parseFileDirectly frontEnd options entry.1 with
          | error failure =>
            rw [directRest] at rest
            subst rest
            exact ⟨stockedAfter, rfl⟩
          | ok resolved =>
            rw [directRest] at rest
            obtain ⟨files, after, same, resolvesOn⟩ := rest
            subst same
            refine ⟨stockedAfter, _, after, rfl, fun extended growsOn => ?_⟩
            obtain ⟨growsHere, filesEq⟩ := resolvesOn extended growsOn
            refine ⟨grows.trans growsHere, ?_⟩
            simp [filesEq, ParsedFile.resolve, resolves extended growsHere]

theorem parseBuild_spec {build : Build} (members : ∀ entry ∈ build.sources, (build.options, entry.1) ∈ inputs)
    (stocked : Stocked blake3 codec frontEnd inputs store) :
    (parseBuild blake3 codec frontEnd build store).1 = parseDirectly frontEnd build ∧
      Stocked blake3 codec frontEnd inputs (parseBuild blake3 codec frontEnd build store).2 := by
  obtain ⟨stockedAfter, outcome⟩ := parseFilesInto_spec noCollisions keepIds build.sources members
    build.interner stocked
  unfold parseBuild parseDirectly
  cases ran : parseFilesInto blake3 codec frontEnd build.options build.sources build.interner store with
  | mk result storeAfter =>
    rw [ran] at stockedAfter outcome
    cases direct : build.sources.mapM fun entry => parseFileDirectly frontEnd build.options entry.1 with
    | error failure =>
      rw [direct] at outcome
      subst outcome
      exact ⟨rfl, stockedAfter⟩
    | ok resolved =>
      rw [direct] at outcome
      obtain ⟨_, after, same, resolvesOn⟩ := outcome
      subst same
      refine ⟨?_, stockedAfter⟩
      rw [← (resolvesOn after List.prefix_rfl).2]

theorem parseBuilds_eq {builds : List Build}
    (members : ∀ build ∈ builds, ∀ entry ∈ build.sources, (build.options, entry.1) ∈ inputs)
    (stocked : Stocked blake3 codec frontEnd inputs store) :
    parseBuilds blake3 codec frontEnd builds store = builds.map (parseDirectly frontEnd) := by
  induction builds generalizing store with
  | nil => rfl
  | cons build builds ih =>
    obtain ⟨result, stockedAfter⟩ := parseBuild_spec noCollisions keepIds (members build (.head _)) stocked
    simp only [parseBuilds, List.map_cons, result]
    rw [ih (fun other member => members other (.tail _ member)) stockedAfter]

end History

end Entries

def filesOf (builds : List Build) : Set ParseInput :=
  { input | ∃ build ∈ builds, ∃ entry ∈ build.sources, input = (build.options, entry.1) }

/-- Over any history of builds in which a text keeps its file id, the cache is transparent. -/
theorem parseBuilds_eq_parseDirectly {Errors : Type} (blake3 : Bytes → CacheKey)
    (codec : Codec CachedParseOutput) (frontEnd : FrontEnd Errors) (builds : List Build)
    (noCollisions : Set.InjOn blake3 (hashedFor blake3 (filesOf builds)))
    (keepIds : TextsKeepIds (filesOf builds)) :
    parseBuilds blake3 codec frontEnd builds {} = builds.map (parseDirectly frontEnd) :=
  parseBuilds_eq noCollisions keepIds
    (fun build buildMember entry entryMember => ⟨build, buildMember, entry, entryMember, rfl⟩)
    ContentStore.written_empty

namespace ParseSample

/-- What the parser returns for `fn main() {}`. -/
def output (fileId : FileId) : CachedParseOutput where
  interner := ⟨["main"]⟩
  ast := .node .ast [ .opt none, .list [
        .node .itemFunction [ .node .function [ .opt none, .list [], .scalar 0, .scalar 0,
            .node .ident [.spur 0, .span ⟨fileId, 3, 7⟩],
            .list [], .opt none,
            .node .exprBlock [ .node .blockExpr [ .list [], .node .exprUnit [.node .unitLit [.span ⟨fileId, 11, 11⟩]],
                .span ⟨fileId, 10, 12⟩]],
            .span ⟨fileId, 0, 12⟩]]]]

/-- The build's interner holds another string already. -/
theorem main_remapped : remapSpurs ((InternerSnapshot.capture ["main"]).restoreInto ["i32"]).1 (output 1).ast =
        some ((output 1).ast.map fun _ => 1) ∧
      ∃ rename : Nat → Nat, remapSpurs ((InternerSnapshot.capture ["main"]).restoreInto ["i32"]).1 (output 1).ast =
            some ((output 1).ast.map rename) ∧
          resolve ((InternerSnapshot.capture ["main"]).restoreInto ["i32"]).2 ((output 1).ast.map rename) =
            resolve ["main"] (output 1).ast := by
  have interned : ∀ symbol ∈ (output 1).ast.spurs, symbol < ["main"].length := by
    intro symbol member
    cases List.mem_singleton.mp member
    exact Nat.one_pos
  have conforms : (output 1).ast.conforms (.node .ast) = true := rfl
  have exact := remap_exact conforms interned ["i32"]
  obtain ⟨-, rename, remapped, -, resolved⟩ := exact
  exact ⟨rfl, rename, remapped, resolved⟩

def frontEnd : FrontEnd Unit where
  parse _ _ fileId := .ok (output fileId)
  conforms := by
    intro features source fileId parsed same
    cases same
    rfl
  interned := by
    intro features source fileId parsed same
    cases same
    intro _ member
    cases List.mem_singleton.mp member
    exact Nat.one_pos

open Classical in
/-- A wire format that knows what the parser returns for files `1` and `2`. -/
noncomputable def codecOf (output : FileId → CachedParseOutput) : Codec CachedParseOutput where
  encode value := if value = output 1 then some [1] else if value = output 2 then some [2] else none
  decode bytes :=
    if bytes = [1] then some (output 1) else if bytes = [2] then some (output 2) else none
  decode_encode := by
    intro value bytes encoded
    split at encoded
    case isTrue same =>
        cases encoded
        rw [same]
        rfl
    case isFalse =>
        split at encoded
        case isTrue same =>
            cases encoded
            rw [same]
            rfl
        case isFalse => cases encoded

noncomputable def codec : Codec CachedParseOutput := codecOf output

def blake3 (bytes : Bytes) : CacheKey where
  bytes := leBytes 32 (bytes.foldl (fun sum byte => 257 * sum + byte.toNat + 1) 0)
  length_eq := length_leBytes 32 _

def options : BuildOptions := ⟨blake3 [], ⟨[120], by decide⟩, .o0, []⟩

def file (fileId : FileId) : SourceFile where
  path := ⟨[97], by decide⟩
  source := ⟨[102, 110, 32, 109, 97, 105, 110, 40, 41, 32, 123, 125], by decide⟩
  fileId := fileId

def build (fileId : FileId) : Build := ⟨options, [], [(file fileId, {})]⟩

theorem injOn_hashedFor (builds : List Build)
    (known : ∀ input ∈ filesOf builds, input.1 = options ∧ input.2.source = (file 0).source) :
    Set.InjOn blake3 (hashedFor blake3 (filesOf builds)) := by
  have cases : ∀ bytes ∈ hashedFor blake3 (filesOf builds),
      bytes = (fingerprintHasher options).mixed ∨ bytes = (file 0).source.bytes ∨
      bytes = (parseKeyHasher blake3 (buildFingerprint blake3 options) (file 0).source).mixed := by
    rintro bytes ⟨input, member, hashed⟩
    obtain ⟨sameOptions, sameSource⟩ := known input member
    rw [sameOptions, sameSource] at hashed
    exact hashed
  intro first firstMember second secondMember same
  revert same
  obtain rfl | rfl | rfl := cases first firstMember <;>
    obtain rfl | rfl | rfl := cases second secondMember <;> decide +kernel

def key : CacheKey := parseKey blake3 (buildFingerprint blake3 options) (file 0).source

/-- The store after file `1` has been parsed. -/
def stocked : CacheStore := ({} : CacheStore).put {} .parse key [1]

theorem parseBuild_cold : parseBuild blake3 codec frontEnd (build 1) {} =
      (.ok [⟨(file 1).path, 1, resolve ["main"] (output 1).ast⟩], stocked) := by
  have encoded : codec.encode (output 1) = some [1] := if_pos rfl
  have loaded : loadParse blake3 codec frontEnd options (file 1) {} {} = (.ok (output 1), stocked) := by
    have missed : ({} : CacheStore).get {} .parse key = .ok none := rfl
    have parsed : parseUncached frontEnd options (file 1) = .ok (output 1) := rfl
    have sameKey : parseKey blake3 (buildFingerprint blake3 options) (file 1).source = key := rfl
    simp only [loadParse, sameKey, missed, parsed, encoded]
    rfl
  unfold parseBuild build parseFilesInto
  simp only [loaded]
  rfl

theorem parseBuild_warm (fileId : FileId) : parseBuild blake3 codec frontEnd (build fileId) stocked =
      (.ok [⟨(file fileId).path, fileId, resolve ["main"] (output 1).ast⟩], stocked) := by
  have loaded : loadParse blake3 codec frontEnd options (file fileId) {} stocked = (.ok (output 1), stocked) := by
    have present : stocked.entries .parse key = some [1] :=
      (entries_put {} rfl .parse key [1] key).trans (if_pos rfl)
    have sameKey : parseKey blake3 (buildFingerprint blake3 options) (file fileId).source = key :=
      rfl
    simp only [loadParse, CacheStore.get, sameKey, present, if_true]
    rfl
  unfold parseBuild build parseFilesInto
  simp only [loaded]
  rfl

theorem known_files (builds : List Build) (sample : ∀ other ∈ builds, ∃ fileId, other = build fileId) :
    ∀ input ∈ filesOf builds, input.1 = options ∧ input.2.source = (file 0).source := by
  rintro input ⟨other, member, _, entryMember, rfl⟩
  obtain ⟨fileId, rfl⟩ := sample other member
  cases List.mem_singleton.mp entryMember
  exact ⟨rfl, rfl⟩

/-- The same text under another id: the second build gets the first build's spans. -/
theorem stale_file_ids : Set.InjOn blake3 (hashedFor blake3 (filesOf [build 1, build 2])) ∧
      parseBuilds blake3 codec frontEnd [build 1, build 2] {} ≠ [build 1, build 2].map (parseDirectly frontEnd) := by
  refine ⟨injOn_hashedFor _ (known_files _ (by simp)), fun same => ?_⟩
  simp only [parseBuilds, parseBuild_cold, parseBuild_warm] at same
  have second : (.ok [⟨(file 2).path, 2, resolve ["main"] (output 1).ast⟩] :
      Except (Failure Unit) (List (ParsedFile (Option String)))) =
      .ok [⟨(file 2).path, 2, resolve ["main"] (output 2).ast⟩] :=
    (List.cons.inj (List.cons.inj same).2).1
  simp [output, resolve, Ast.Tree.map, mapAll] at second

theorem cold_then_warm : Set.InjOn blake3 (hashedFor blake3 (filesOf [build 1, build 1])) ∧
      TextsKeepIds (filesOf [build 1, build 1]) ∧
      parseBuilds blake3 codec frontEnd [build 1, build 1] {} = [build 1, build 1].map (parseDirectly frontEnd) := by
  have noCollisions : Set.InjOn blake3 (hashedFor blake3 (filesOf [build 1, build 1])) :=
    injOn_hashedFor _ (known_files _ (by simp))
  have keepIds : TextsKeepIds (filesOf [build 1, build 1]) := by
    have oneId : ∀ input ∈ filesOf [build 1, build 1], input.2.fileId = 1 := by
      rintro input ⟨other, member, _, entryMember, rfl⟩
      obtain rfl : other = build 1 := by simpa using member
      cases List.mem_singleton.mp entryMember
      rfl
    intro first firstMember second secondMember _ _
    rw [oneId first firstMember, oneId second secondMember]
  exact ⟨noCollisions, keepIds,
    parseBuilds_eq_parseDirectly blake3 codec frontEnd [build 1, build 1] noCollisions keepIds⟩

end ParseSample

end Cache

end Gruel
