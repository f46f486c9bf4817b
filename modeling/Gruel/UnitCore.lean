import Gruel.CacheCore
import Gruel.Lib.Reading

/-!
A compilation unit with its AIR and bitcode caches: `parse`, `lower`, `analyze` and
`compile`, as far as caching goes.  The passes themselves are parameters; the prelude and
semantic analysis read files.
-/

namespace Gruel

namespace Cache

open Reading

abbrev Path := Text

abbrev Reader := Program Path Bytes

structure SemaOutput (Air Pool Interfaces Warning : Type) where
  functions : Air
  typePool : Pool
  strings : List Text
  bytes : List Bytes
  interfaces : Interfaces
  comptimeDbgOutput : List Text
  warnings : List Warning

structure CachedAirOutput (Air Pool Interfaces : Type) where
  interner : InternerSnapshot
  functions : Air
  typePool : Pool
  strings : List Text
  bytes : List Bytes
  interfaces : Interfaces
  comptimeDbgOutput : List Text
  deriving DecidableEq

structure Prelude where
  files : List (ParsedFile Nat)
  interner : Interner
  filePaths : List (FileId × Path)

structure Analyzed (Cfgs Pool Interfaces : Type) where
  functions : Cfgs
  typePool : Pool
  strings : List Text
  bytes : List Bytes
  interfaces : Interfaces
  interner : Interner

/-- The passes of the compiler.  An interner holds each string once and only ever grows. -/
structure Compiler (Errors Rir Air Pool Interfaces Warning Cfgs : Type) where
  frontEnd : FrontEnd Errors
  -- Resolves the prelude and parses it.
  prelude : List Text → Reader (Except Errors Prelude)
  -- Parses files one after the other into one interner.
  parseShared : List Text → List SourceFile → Interner → Except Errors (List (ParsedFile Nat) × Interner)
  -- Merges the symbols of all files and generates RIR.
  lower : List (ParsedFile Nat) → Interner → Except Errors (Rir × Interner)
  runSema : Rir → Interner → BuildOptions → List (FileId × Path) →
    Reader (Except Errors (SemaOutput Air Pool Interfaces Warning × Interner))
  -- Adds drop glue and builds the control flow graphs.
  buildCfgs : Air → Pool → Interner → Cfgs × Interner
  hasMain : Cfgs → Bool
  noMainFunction : Errors
  generateBitcode : Analyzed Cfgs Pool Interfaces → Text → Except Errors Bytes
  interner_grows : ∀ {rir interner options paths files output after},
    (runSema rir interner options paths).run files = .ok (output, after) → interner <+: after ∧ after.Nodup

/-- A build: its options and files, the files on disk, which of the three phases get to open
the cache, and how the disk behaves when the store is asked. -/
structure UnitBuild where
  options : BuildOptions
  sources : List (SourceFile × Disk)
  files : Path → Option Bytes
  parseOpens : Bool := true
  airOpens : Bool := true
  bitcodeOpens : Bool := true
  airDisk : Disk := {}
  bitcodeDisk : Disk := {}

def airKeyHasher (blake3 : Bytes → CacheKey) (options : BuildOptions) (sources : List SourceFile) : Hasher :=
  sources.foldl (fun hasher source => (hasher.updateStr source.path).updateStr source.source)
    (({} : Hasher).update (buildFingerprint blake3 options).bytes)

def airKey (blake3 : Bytes → CacheKey) (build : UnitBuild) : CacheKey :=
  (airKeyHasher blake3 build.options (build.sources.map Prod.fst)).finalize blake3

structure Lowered (Rir : Type) where
  rir : Rir
  interner : Interner
  filePaths : List (FileId × Path)

section Phases

variable {Errors Rir Air Pool Interfaces Warning Cfgs : Type} (blake3 : Bytes → CacheKey)
  (parseCodec : Codec CachedParseOutput) (airCodec : Codec (CachedAirOutput Air Pool Interfaces))
  (compiler : Compiler Errors Rir Air Pool Interfaces Warning Cfgs)

def liftErrors {α : Type} : Except Errors α → Except (Failure Errors) α
  | .error errors => .error (.errors errors)
  | .ok value => .ok value

def parseSources (build : UnitBuild) (interner : Interner) (store : CacheStore) :
    Except (Failure Errors) (List (ParsedFile Nat) × Interner) × CacheStore :=
  if build.parseOpens then
    parseFilesInto blake3 parseCodec compiler.frontEnd build.options build.sources interner store
  else
    (liftErrors (compiler.parseShared build.options.previewFeatures (build.sources.map Prod.fst) interner), store)

def parseAndLower (build : UnitBuild) (store : CacheStore) : Except (Failure Errors) (Lowered Rir) × CacheStore :=
  match (compiler.prelude build.options.previewFeatures).run build.files with
  | .error errors => (.error (.errors errors), store)
  | .ok prelude =>
    match parseSources blake3 parseCodec compiler build prelude.interner store with
    | (.error failure, store) => (.error failure, store)
    | (.ok (files, interner), store) =>
      match compiler.lower (prelude.files ++ files) interner with
      | .error errors => (.error (.errors errors), store)
      | .ok (rir, interner) =>
        (.ok ⟨rir, interner, (build.sources.map fun entry => (entry.1.fileId, entry.1.path)) ++
            prelude.filePaths⟩, store)

def runSema (build : UnitBuild) (lowered : Lowered Rir) :
    Except Errors (SemaOutput Air Pool Interfaces Warning × Interner) :=
  (compiler.runSema lowered.rir lowered.interner build.options lowered.filePaths).run build.files

def cacheAir (output : SemaOutput Air Pool Interfaces Warning) (interner : Interner) :
    CachedAirOutput Air Pool Interfaces where
  interner := .capture interner
  functions := output.functions
  typePool := output.typePool
  strings := output.strings
  bytes := output.bytes
  interfaces := output.interfaces
  comptimeDbgOutput := output.comptimeDbgOutput

def restoreAir (cached : CachedAirOutput Air Pool Interfaces) : SemaOutput Air Pool Interfaces Warning where
  functions := cached.functions
  typePool := cached.typePool
  strings := cached.strings
  bytes := cached.bytes
  interfaces := cached.interfaces
  comptimeDbgOutput := cached.comptimeDbgOutput
  warnings := []

def missAir (build : UnitBuild) (lowered : Lowered Rir) (store : CacheStore) :
    Except Errors (SemaOutput Air Pool Interfaces Warning × Interner) × CacheStore :=
  match runSema compiler build lowered with
  | .error errors => (.error errors, store)
  | .ok (output, interner) =>
    match airCodec.encode (cacheAir output interner) with
    | some bytes =>
      (.ok (output, interner), store.put build.airDisk .air (airKey blake3 build) bytes)
    | none => (.ok (output, interner), store)

/-- The output of semantic analysis, from the cache or into it.  A hit replays the interner
and throws the new numbering away. -/
def loadAir (build : UnitBuild) (lowered : Lowered Rir) (store : CacheStore) :
    Except Errors (SemaOutput Air Pool Interfaces Warning × Interner) × CacheStore :=
  if build.airOpens then
    match store.get build.airDisk .air (airKey blake3 build) with
    | .ok (some bytes) =>
      match airCodec.decode bytes with
      | some cached =>
        (.ok (restoreAir cached, (cached.interner.restoreInto lowered.interner).2), store)
      | none => (runSema compiler build lowered, store)
    -- Absent, or not readable.
    | _ => missAir blake3 airCodec compiler build lowered store
  else (runSema compiler build lowered, store)

def finishAnalysis (output : SemaOutput Air Pool Interfaces Warning) (interner : Interner) :
    Analyzed Cfgs Pool Interfaces :=
  let (functions, interner) := compiler.buildCfgs output.functions output.typePool interner
  ⟨functions, output.typePool, output.strings, output.bytes, output.interfaces, interner⟩

def analyze (build : UnitBuild) (lowered : Lowered Rir) (store : CacheStore) :
    Except Errors (Analyzed Cfgs Pool Interfaces) × CacheStore :=
  match loadAir blake3 airCodec compiler build lowered store with
  | (.error errors, store) => (.error errors, store)
  | (.ok (output, interner), store) => (.ok (finishAnalysis compiler output interner), store)

def missBitcode (build : UnitBuild) (analyzed : Analyzed Cfgs Pool Interfaces)
    (store : CacheStore) : Except Errors Bytes × CacheStore :=
  match compiler.generateBitcode analyzed build.options.target with
  | .error errors => (.error errors, store)
  | .ok bitcode =>
    (.ok bitcode, store.put build.bitcodeDisk .llvmIr (airKey blake3 build) bitcode)

def compileBitcode (build : UnitBuild) (analyzed : Analyzed Cfgs Pool Interfaces)
    (store : CacheStore) : Except Errors Bytes × CacheStore :=
  if compiler.hasMain analyzed.functions then
    if build.bitcodeOpens then
      match store.get build.bitcodeDisk .llvmIr (airKey blake3 build) with
      | .ok (some bitcode) => (.ok bitcode, store)
      | _ => missBitcode blake3 compiler build analyzed store
    else (compiler.generateBitcode analyzed build.options.target, store)
  else (.error compiler.noMainFunction, store)

def runUnit (build : UnitBuild) (store : CacheStore) :
    Except (Failure Errors) (Analyzed Cfgs Pool Interfaces × Except Errors Bytes) × CacheStore :=
  match parseAndLower blake3 parseCodec compiler build store with
  | (.error failure, store) => (.error failure, store)
  | (.ok lowered, store) =>
    match analyze blake3 airCodec compiler build lowered store with
    | (.error errors, store) => (.error (.errors errors), store)
    | (.ok analyzed, store) =>
      let (bitcode, store) := compileBitcode blake3 compiler build analyzed store
      (.ok (analyzed, bitcode), store)

def runUnits : List UnitBuild → CacheStore →
    List (Except (Failure Errors) (Analyzed Cfgs Pool Interfaces × Except Errors Bytes))
  | [], _ => []
  | build :: builds, store =>
    let (result, store) := runUnit blake3 parseCodec airCodec compiler build store
    result :: runUnits builds store

def runUncached (build : UnitBuild) : Except (Failure Errors) (Analyzed Cfgs Pool Interfaces × Except Errors Bytes) :=
  (runUnit blake3 parseCodec airCodec compiler build {}).1

end Phases

end Cache

end Gruel
