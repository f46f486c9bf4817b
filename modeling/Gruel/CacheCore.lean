import Gruel.AstCore
import Gruel.Lib.Framing

/-!
Cache keys, the on-disk store, interner snapshots, and the parse cache over them.  Hashing,
the wire format and the parser itself are parameters.
-/

namespace Gruel

namespace Cache

open Ast

abbrev Bytes := List UInt8

structure Text where
  bytes : Bytes
  fits : bytes.length < 2 ^ 64
  deriving DecidableEq

structure CacheKey where
  bytes : Bytes
  length_eq : bytes.length = 32
  deriving DecidableEq

def leBytes : Nat → Nat → Bytes
  | 0, _ => []
  | width + 1, value => UInt8.ofNat value :: leBytes width (value / 256)

/-- What has been mixed in so far. -/
structure Hasher where
  mixed : Bytes := []

namespace Hasher

def update (hasher : Hasher) (bytes : Bytes) : Hasher := ⟨hasher.mixed ++ bytes⟩

def updateU32 (hasher : Hasher) (value : Nat) : Hasher := hasher.update (leBytes 4 value)

def updateStr (hasher : Hasher) (text : Text) : Hasher :=
  hasher.update (Framing.frame (leBytes 8) text.bytes)

def finalize (blake3 : Bytes → CacheKey) (hasher : Hasher) : CacheKey := blake3 hasher.mixed

end Hasher

def blake3Bytes (blake3 : Bytes → CacheKey) (bytes : Bytes) : CacheKey :=
  (({} : Hasher).update bytes).finalize blake3

inductive OptLevel
  | o0
  | o1
  | o2
  | o3
  deriving DecidableEq

def OptLevel.toU32 : OptLevel → Nat
  | .o0 => 0
  | .o1 => 1
  | .o2 => 2
  | .o3 => 3

/-- The options that go into the build fingerprint, with the fingerprint of the compiler
itself.  The names of the preview features are sorted. -/
structure BuildOptions where
  compilerFp : CacheKey
  target : Text
  optLevel : OptLevel
  previewFeatures : List Text
  deriving DecidableEq

def fingerprintHasher (options : BuildOptions) : Hasher :=
  options.previewFeatures.foldl Hasher.updateStr
    (((({} : Hasher).update options.compilerFp.bytes).updateStr options.target).updateU32 options.optLevel.toU32)

def buildFingerprint (blake3 : Bytes → CacheKey) (options : BuildOptions) : CacheKey :=
  (fingerprintHasher options).finalize blake3

def parseKeyHasher (blake3 : Bytes → CacheKey) (buildFp : CacheKey) (source : Text) : Hasher :=
  (({} : Hasher).update buildFp.bytes).update (blake3Bytes blake3 source.bytes).bytes

def parseKey (blake3 : Bytes → CacheKey) (buildFp : CacheKey) (source : Text) : CacheKey :=
  (parseKeyHasher blake3 buildFp source).finalize blake3

inductive CacheKind
  | parse
  | air
  | llvmIr
  deriving DecidableEq

structure CacheStore where
  entries : CacheKind → CacheKey → Option Bytes := fun _ _ => none

/-- Whether the file system lets the store read and write. -/
structure Disk where
  readable : Bool := true
  writable : Bool := true

namespace CacheStore

def get (store : CacheStore) (disk : Disk) (kind : CacheKind) (key : CacheKey) : Except Unit (Option Bytes) :=
  if disk.readable then .ok (store.entries kind key) else .error ()

def put (store : CacheStore) (disk : Disk) (kind : CacheKind) (key : CacheKey) (data : Bytes) : CacheStore :=
  if disk.writable then
    ⟨fun otherKind otherKey =>
      if otherKind = kind ∧ otherKey = key then some data else store.entries otherKind otherKey⟩
  else store

end CacheStore

/-- A wire format that reads back what it wrote; writing may fail. -/
structure Codec (α : Type) where
  encode : α → Option Bytes
  decode : Bytes → Option α
  decode_encode : ∀ {value bytes}, encode value = some bytes → decode bytes = some value

abbrev Interner := List String

def getOrIntern (interner : Interner) (string : String) : Nat × Interner :=
  match interner.findIdx? (· == string) with
  | some symbol => (symbol, interner)
  | none => (interner.length, interner ++ [string])

structure InternerSnapshot where
  strings : List String
  deriving DecidableEq

def InternerSnapshot.capture (interner : Interner) : InternerSnapshot := ⟨interner⟩

def restoreStrings : List String → Interner → List Nat × Interner
  | [], target => ([], target)
  | string :: strings, target =>
    let (symbol, target) := getOrIntern target string
    let (symbols, target) := restoreStrings strings target
    (symbol :: symbols, target)

def InternerSnapshot.restoreInto (snapshot : InternerSnapshot) (target : Interner) : List Nat × Interner :=
  restoreStrings snapshot.strings target

def resolve (interner : Interner) (tree : Ast.Tree Nat) : Ast.Tree (Option String) :=
  tree.map fun symbol => interner[symbol]?

structure CachedParseOutput where
  interner : InternerSnapshot
  ast : Ast.Tree Nat

/-- A lexer and parser working on a fresh interner: it returns a syntax tree whose symbols
are all in that interner. -/
structure FrontEnd (Errors : Type) where
  parse : List Text → Text → FileId → Except Errors CachedParseOutput
  conforms : ∀ {features source fileId output}, parse features source fileId = .ok output →
    output.ast.conforms (.node .ast) = true
  interned : ∀ {features source fileId output}, parse features source fileId = .ok output →
    ∀ symbol ∈ output.ast.spurs, symbol < output.interner.strings.length

structure SourceFile where
  path : Text
  source : Text
  fileId : FileId
  deriving DecidableEq

structure ParsedFile (Symbol : Type) where
  path : Text
  fileId : FileId
  ast : Ast.Tree Symbol

inductive Failure (Errors : Type)
  | errors (errors : Errors)
  | panicked

section ParseCache

variable {Errors : Type} (blake3 : Bytes → CacheKey) (codec : Codec CachedParseOutput) (frontEnd : FrontEnd Errors)

def parseUncached (options : BuildOptions) (source : SourceFile) : Except Errors CachedParseOutput :=
  frontEnd.parse options.previewFeatures source.source source.fileId

def loadParse (options : BuildOptions) (source : SourceFile) (disk : Disk) (store : CacheStore) :
    Except Errors CachedParseOutput × CacheStore :=
  let key := parseKey blake3 (buildFingerprint blake3 options) source.source
  match store.get disk .parse key with
  | .ok (some bytes) =>
    match codec.decode bytes with
    | some cached => (.ok cached, store)
    | none => (parseUncached frontEnd options source, store)
  | .ok none =>
    match parseUncached frontEnd options source with
    | .error errors => (.error errors, store)
    | .ok output =>
      match codec.encode output with
      | some bytes => (.ok output, store.put disk .parse key bytes)
      | none => (.ok output, store)
  | .error _ => (parseUncached frontEnd options source, store)

def parseFilesInto (options : BuildOptions) : List (SourceFile × Disk) → Interner → CacheStore →
    Except (Failure Errors) (List (ParsedFile Nat) × Interner) × CacheStore
  | [], interner, store => (.ok ([], interner), store)
  | (source, disk) :: sources, interner, store =>
    match loadParse blake3 codec frontEnd options source disk store with
    | (.error errors, store) => (.error (.errors errors), store)
    | (.ok output, store) =>
      let (remap, interner) := output.interner.restoreInto interner
      match remapSpurs remap output.ast with
      | none => (.error .panicked, store)
      | some ast =>
        match parseFilesInto options sources interner store with
        | (.error failure, store) => (.error failure, store)
        | (.ok (files, interner), store) =>
          (.ok (⟨source.path, source.fileId, ast⟩ :: files, interner), store)

/-- A build's options, the interner it starts from (the prelude is in it), and its files, each
with how the disk behaves when the store is asked for it. -/
structure Build where
  options : BuildOptions
  interner : Interner
  sources : List (SourceFile × Disk)

def ParsedFile.resolve (interner : Interner) (file : ParsedFile Nat) : ParsedFile (Option String) :=
  ⟨file.path, file.fileId, Cache.resolve interner file.ast⟩

def parseBuild (build : Build) (store : CacheStore) :
    Except (Failure Errors) (List (ParsedFile (Option String))) × CacheStore :=
  match parseFilesInto blake3 codec frontEnd build.options build.sources build.interner store with
  | (.error failure, store) => (.error failure, store)
  | (.ok (files, interner), store) =>
    (.ok (files.map (ParsedFile.resolve interner)), store)

def parseBuilds : List Build → CacheStore → List (Except (Failure Errors) (List (ParsedFile (Option String))))
  | [], _ => []
  | build :: builds, store =>
    let (result, store) := parseBuild blake3 codec frontEnd build store
    result :: parseBuilds builds store

def parseFileDirectly (options : BuildOptions) (source : SourceFile) :
    Except (Failure Errors) (ParsedFile (Option String)) :=
  match parseUncached frontEnd options source with
  | .error errors => .error (.errors errors)
  | .ok output =>
    .ok ⟨source.path, source.fileId, resolve output.interner.strings output.ast⟩

def parseDirectly (build : Build) : Except (Failure Errors) (List (ParsedFile (Option String))) :=
  build.sources.mapM fun entry => parseFileDirectly frontEnd build.options entry.1

end ParseCache

end Cache

end Gruel
