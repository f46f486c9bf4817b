import Gruel.ParseCache
import Gruel.UnitCore

/-!
The AIR and bitcode caches over whole histories of builds.
-/

namespace Gruel

namespace Cache

open Ast Framing Reading

variable {interner : Interner} {string : String}

def pathsAndTexts (sources : List SourceFile) : List Text :=
  sources.flatMap fun source => [source.path, source.source]

theorem mixed_airKeyHasher (blake3 : Bytes → CacheKey) (options : BuildOptions) (sources : List SourceFile) :
    (airKeyHasher blake3 options sources).mixed = (buildFingerprint blake3 options).bytes ++
        frames (leBytes 8) ((pathsAndTexts sources).map Text.bytes) := by
  have general : ∀ hasher : Hasher, (sources.foldl (fun hasher source =>
        (hasher.updateStr source.path).updateStr source.source) hasher).mixed =
        hasher.mixed ++ frames (leBytes 8) ((pathsAndTexts sources).map Text.bytes) := by
    induction sources with
    | nil => simp [pathsAndTexts, frames]
    | cons source sources ih =>
      intro hasher
      rw [List.foldl_cons, ih]
      simp [Hasher.updateStr, Hasher.update, pathsAndTexts, frames]
  rw [airKeyHasher, general]
  rfl

theorem airKeyHasher_inj {blake3 : Bytes → CacheKey} {firstOptions secondOptions : BuildOptions}
    {first second : List SourceFile}
    (same : (airKeyHasher blake3 firstOptions first).mixed = (airKeyHasher blake3 secondOptions second).mixed) :
    buildFingerprint blake3 firstOptions = buildFingerprint blake3 secondOptions ∧
      pathsAndTexts first = pathsAndTexts second := by
  rw [mixed_airKeyHasher, mixed_airKeyHasher] at same
  obtain ⟨sameFp, sameSources⟩ := List.append_inj same (by
    rw [(buildFingerprint blake3 firstOptions).length_eq, (buildFingerprint blake3 secondOptions).length_eq])
  exact ⟨CacheKey.ext_bytes sameFp, texts_inj sameSources⟩

theorem getOrIntern_of_mem (present : string ∈ interner) : (getOrIntern interner string).2 = interner := by
  unfold getOrIntern
  cases found : interner.findIdx? (· == string) with
  | some symbol => rfl
  | none =>
    have absent := List.findIdx?_eq_none_iff.mp found string present
    simp at absent

theorem getOrIntern_of_not_mem (absent : string ∉ interner) :
    (getOrIntern interner string).2 = interner ++ [string] := by
  unfold getOrIntern
  have found : interner.findIdx? (· == string) = none := by
    refine List.findIdx?_eq_none_iff.mpr fun other member => ?_
    simp only [beq_eq_false_iff_ne, ne_eq]
    rintro rfl
    exact absent member
  rw [found]

/-- A snapshot that grew from an interner, replayed into that interner, is the snapshot
itself: the symbols in it keep their strings without any renumbering. -/
theorem restoreStrings_of_isPrefix {snapshot : Interner} (grew : interner <+: snapshot)
    (nodup : snapshot.Nodup) : (restoreStrings snapshot interner).2 = snapshot := by
  -- Strings already there change nothing, the others are appended one by one.
  have skip : ∀ (present strings : List String) (target : Interner), (∀ string ∈ present, string ∈ target) →
        (restoreStrings (present ++ strings) target).2 = (restoreStrings strings target).2 := by
    intro present
    induction present with
    | nil => exact fun _ _ _ => rfl
    | cons string present ih =>
      intro strings target known
      have unchanged := getOrIntern_of_mem (known string (.head _))
      simp only [List.cons_append, restoreStrings, unchanged]
      exact ih strings target fun other member => known other (.tail _ member)
  have append : ∀ (strings : List String) (target : Interner), (target ++ strings).Nodup →
      (restoreStrings strings target).2 = target ++ strings := by
    intro strings
    induction strings with
    | nil => simp [restoreStrings]
    | cons string strings ih =>
      intro target distinct
      have absent : string ∉ target := by
        intro member
        exact (List.nodup_append.mp distinct).2.2 string member string (.head _) rfl
      have grown := getOrIntern_of_not_mem absent
      simp only [restoreStrings, grown]
      rw [ih (target ++ [string]) (by simpa using distinct)]
      simp
  obtain ⟨rest, rfl⟩ := grew
  rw [skip interner rest interner fun _ member => member]
  exact append rest interner nodup

theorem entries_put_of_ne (store : CacheStore) (disk : Disk) {kind other : CacheKind}
    (different : other ≠ kind) (key : CacheKey) (data : Bytes) :
    (store.put disk kind key data).entries other = store.entries other := by
  unfold CacheStore.put
  split
  · simp [different]
  · rfl

section Parse

variable {Errors : Type} {blake3 : Bytes → CacheKey} {codec : Codec CachedParseOutput}
  {frontEnd : FrontEnd Errors} {inputs : Set ParseInput}

theorem entries_loadParse (options : BuildOptions) (source : SourceFile) (disk : Disk)
    (store : CacheStore) {kind : CacheKind} (different : kind ≠ .parse) :
    (loadParse blake3 codec frontEnd options source disk store).2.entries kind = store.entries kind := by
  simp only [loadParse]
  cases store.get disk .parse (parseKey blake3 (buildFingerprint blake3 options) source.source) with
  | error => rfl
  | ok found =>
    cases found with
    | some bytes =>
      dsimp only
      cases codec.decode bytes <;> rfl
    | none =>
      cases parseUncached frontEnd options source with
      | error errors => rfl
      | ok output =>
        dsimp only
        cases codec.encode output with
        | none => rfl
        | some bytes => exact entries_put_of_ne _ _ different _ _

theorem entries_parseFilesInto (options : BuildOptions) (sources : List (SourceFile × Disk))
    (interner : Interner) (store : CacheStore) {kind : CacheKind} (different : kind ≠ .parse) :
    (parseFilesInto blake3 codec frontEnd options sources interner store).2.entries kind = store.entries kind := by
  induction sources generalizing interner store with
  | nil => rfl
  | cons entry sources ih =>
    obtain ⟨source, disk⟩ := entry
    have loaded := @entries_loadParse Errors blake3 codec frontEnd options source disk store kind different
    simp only [parseFilesInto]
    cases load : loadParse blake3 codec frontEnd options source disk store with
    | mk result storeNext =>
      rw [load] at loaded
      cases result with
      | error errors => exact loaded
      | ok output =>
        dsimp only
        cases remapSpurs (output.interner.restoreInto interner).1 output.ast with
        | none => exact loaded
        | some ast =>
          have rest := ih (output.interner.restoreInto interner).2 storeNext
          cases ran : parseFilesInto blake3 codec frontEnd options sources
              (output.interner.restoreInto interner).2 storeNext with
          | mk others storeAfter =>
            rw [ran] at rest
            cases others with
            | error failure => exact rest.trans loaded
            | ok files => exact rest.trans loaded

theorem parseFilesInto_congr (noCollisions : Set.InjOn blake3 (hashedFor blake3 inputs))
    (keepIds : TextsKeepIds inputs) {options : BuildOptions}
    {first second : List (SourceFile × Disk)}
    (sameFiles : first.map Prod.fst = second.map Prod.fst)
    (members : ∀ entry ∈ first, (options, entry.1) ∈ inputs) (interner : Interner)
    {firstStore secondStore : CacheStore}
    (firstStocked : Stocked blake3 codec frontEnd inputs firstStore)
    (secondStocked : Stocked blake3 codec frontEnd inputs secondStore) :
    (parseFilesInto blake3 codec frontEnd options first interner firstStore).1 =
      (parseFilesInto blake3 codec frontEnd options second interner secondStore).1 := by
  induction first generalizing second interner firstStore secondStore with
  | nil =>
    cases second with
    | nil => rfl
    | cons entry second => cases sameFiles
  | cons entry first ih =>
    obtain ⟨source, firstDisk⟩ := entry
    cases second with
    | nil => cases sameFiles
    | cons other second =>
      obtain ⟨_, secondDisk⟩ := other
      simp only [List.map_cons, List.cons.injEq] at sameFiles
      obtain ⟨rfl, sameFiles⟩ := sameFiles
      have member := members (source, firstDisk) (.head _)
      obtain ⟨firstLoaded, firstStocked⟩ :=
        loadParse_spec noCollisions keepIds member firstDisk firstStocked
      obtain ⟨secondLoaded, secondStocked⟩ :=
        loadParse_spec noCollisions keepIds member secondDisk secondStocked
      simp only [parseFilesInto]
      cases firstLoad : loadParse blake3 codec frontEnd options source firstDisk firstStore with
      | mk firstResult firstNext =>
        cases secondLoad : loadParse blake3 codec frontEnd options source secondDisk secondStore with
        | mk secondResult secondNext =>
          rw [firstLoad] at firstLoaded firstStocked
          rw [secondLoad] at secondLoaded secondStocked
          have sameResult : firstResult = secondResult :=
            firstLoaded.trans secondLoaded.symm
          subst sameResult
          cases firstResult with
          | error errors => rfl
          | ok output =>
            dsimp only
            cases remapSpurs (output.interner.restoreInto interner).1 output.ast with
            | none => rfl
            | some ast =>
              have rest := ih sameFiles (fun other inside => members other (.tail _ inside))
                (output.interner.restoreInto interner).2 firstStocked secondStocked
              cases firstRan : parseFilesInto blake3 codec frontEnd options first
                  (output.interner.restoreInto interner).2 firstNext with
              | mk firstRest firstAfter =>
                cases secondRan : parseFilesInto blake3 codec frontEnd options second
                    (output.interner.restoreInto interner).2 secondNext with
                | mk secondRest secondAfter =>
                  rw [firstRan, secondRan] at rest
                  subst rest
                  cases firstRest with
                  | error failure => rfl
                  | ok files => rfl

end Parse

section Units

variable {Errors Rir Air Pool Interfaces Warning Cfgs : Type} (blake3 : Bytes → CacheKey)
  (parseCodec : Codec CachedParseOutput) (airCodec : Codec (CachedAirOutput Air Pool Interfaces))
  (compiler : Compiler Errors Rir Air Pool Interfaces Warning Cfgs)

variable {store : CacheStore} {first second : UnitBuild}

def analysis (build : UnitBuild) :
    Reader (Except (Failure Errors) (SemaOutput Air Pool Interfaces Warning × Interner)) := do
  match ← compiler.prelude build.options.previewFeatures with
  | .error errors => pure (.error (.errors errors))
  | .ok prelude =>
    match (parseSources blake3 parseCodec compiler build prelude.interner {}).1 with
    | .error failure => pure (.error failure)
    | .ok (files, interner) =>
      match compiler.lower (prelude.files ++ files) interner with
      | .error errors => pure (.error (.errors errors))
      | .ok (rir, interner) => do
          let output ← compiler.runSema rir interner build.options
            ((build.sources.map fun entry => (entry.1.fileId, entry.1.path)) ++ prelude.filePaths)
          pure (liftErrors output)

def analyzedFresh (build : UnitBuild) : Except (Failure Errors) (SemaOutput Air Pool Interfaces Warning × Interner) :=
  (analysis blake3 parseCodec compiler build).run build.files

theorem analyzedFresh_eq (build : UnitBuild) : analyzedFresh blake3 parseCodec compiler build =
      match (parseAndLower blake3 parseCodec compiler build {}).1 with
      | .error failure => .error failure
      | .ok lowered => liftErrors (runSema compiler build lowered) := by
  unfold analyzedFresh analysis parseAndLower
  rw [Program.run_bind]
  cases (compiler.prelude build.options.previewFeatures).run build.files with
  | error errors => rfl
  | ok prelude =>
    dsimp only
    cases parseSources blake3 parseCodec compiler build prelude.interner {} with
    | mk result store =>
      cases result with
      | error failure => rfl
      | ok parsed =>
        dsimp only
        cases compiler.lower (prelude.files ++ parsed.1) parsed.2 with
        | error errors => rfl
        | ok lowered => simp [runSema]

def cachingBuilds (builds : List UnitBuild) : Set UnitBuild :=
  { build | build ∈ builds ∧ (build.airOpens = true ∨ build.bitcodeOpens = true) }

def parsedFiles (builds : List UnitBuild) : Set ParseInput :=
  { input | ∃ build ∈ builds, build.parseOpens = true ∧ ∃ entry ∈ build.sources, input = (build.options, entry.1) }

def hashedForUnits (builds : List UnitBuild) : Set Bytes := hashedFor blake3 (parsedFiles builds) ∪
    { bytes | ∃ build ∈ cachingBuilds builds, bytes = (fingerprintHasher build.options).mixed ∨
      bytes = (airKeyHasher blake3 build.options (build.sources.map Prod.fst)).mixed }

/-- Two builds with the same options, paths and texts agree on what else analysis depends on:
the ids of the files, whether they are parsed through the cache, and every file on disk that
analysis reads. -/
def KeysCoverInputs (builds : List UnitBuild) : Prop :=
  ∀ first ∈ cachingBuilds builds, ∀ second ∈ cachingBuilds builds, first.options = second.options →
    pathsAndTexts (first.sources.map Prod.fst) = pathsAndTexts (second.sources.map Prod.fst) →
      first.sources.map Prod.fst = second.sources.map Prod.fst ∧
      first.parseOpens = second.parseOpens ∧
      ∀ path ∈ (analysis blake3 parseCodec compiler first).reads first.files, first.files path = second.files path

def yieldsAir (build : UnitBuild) (bytes : Bytes) : Prop :=
  ∃ output interner, analyzedFresh blake3 parseCodec compiler build = .ok (output, interner) ∧
    airCodec.encode (cacheAir output interner) = some bytes

def yieldsBitcode (build : UnitBuild) (bytes : Bytes) : Prop :=
  ∃ output interner, analyzedFresh blake3 parseCodec compiler build = .ok (output, interner) ∧
    compiler.generateBitcode (finishAnalysis compiler output interner) build.options.target = .ok bytes

def finishAll (ran : Except Errors (SemaOutput Air Pool Interfaces Warning × Interner)) :
    Except Errors (Analyzed Cfgs Pool Interfaces) :=
  ran.map fun ran => finishAnalysis compiler ran.1 ran.2

structure UnitStocked (builds : List UnitBuild) (store : CacheStore) : Prop where
  parse : Stocked blake3 parseCodec compiler.frontEnd (parsedFiles builds) store
  air : ContentStore.Written (airKey blake3) (yieldsAir blake3 parseCodec airCodec compiler)
    (cachingBuilds builds) (store.entries .air)
  bitcode : ContentStore.Written (airKey blake3) (yieldsBitcode blake3 parseCodec compiler)
    (cachingBuilds builds) (store.entries .llvmIr)

theorem unitStocked_empty (builds : List UnitBuild) : UnitStocked blake3 parseCodec airCodec compiler builds {} :=
  ⟨ContentStore.written_empty, ContentStore.written_empty, ContentStore.written_empty⟩

variable {blake3 parseCodec airCodec compiler} {builds : List UnitBuild}
  (noCollisions : Set.InjOn blake3 (hashedForUnits blake3 builds))
  (keepIds : TextsKeepIds (parsedFiles builds))

include noCollisions in
theorem options_of_airKey (firstMember : first ∈ cachingBuilds builds) (secondMember : second ∈ cachingBuilds builds)
    (same : airKey blake3 first = airKey blake3 second) :
    first.options = second.options ∧
      pathsAndTexts (first.sources.map Prod.fst) = pathsAndTexts (second.sources.map Prod.fst) := by
  have sameMixed := noCollisions (.inr ⟨first, firstMember, .inr rfl⟩) (.inr ⟨second, secondMember, .inr rfl⟩) same
  obtain ⟨sameFp, sameSources⟩ := airKeyHasher_inj sameMixed
  have sameOptions := noCollisions (.inr ⟨first, firstMember, .inl rfl⟩)
    (.inr ⟨second, secondMember, .inl rfl⟩) sameFp
  exact ⟨fingerprintHasher_inj sameOptions, sameSources⟩

theorem mem_parsedFiles {build : UnitBuild} (member : build ∈ builds) (opens : build.parseOpens = true) :
    ∀ entry ∈ build.sources, (build.options, entry.1) ∈ parsedFiles builds :=
  fun entry inside => ⟨build, member, opens, entry, inside, rfl⟩

include noCollisions keepIds in
theorem parseSources_congr (firstMember : first ∈ builds) (sameOptions : first.options = second.options)
    (sameFiles : first.sources.map Prod.fst = second.sources.map Prod.fst)
    (sameOpens : first.parseOpens = second.parseOpens) (interner : Interner)
    {firstStore secondStore : CacheStore}
    (firstStocked : Stocked blake3 parseCodec compiler.frontEnd (parsedFiles builds) firstStore)
    (secondStocked : Stocked blake3 parseCodec compiler.frontEnd (parsedFiles builds) secondStore) :
    (parseSources blake3 parseCodec compiler first interner firstStore).1 =
      (parseSources blake3 parseCodec compiler second interner secondStore).1 := by
  have noParseCollisions : Set.InjOn blake3 (hashedFor blake3 (parsedFiles builds)) :=
    noCollisions.mono Set.subset_union_left
  unfold parseSources
  rw [← sameOpens, ← sameOptions]
  cases opens : first.parseOpens with
  | true =>
    exact parseFilesInto_congr noParseCollisions keepIds sameFiles
      (mem_parsedFiles firstMember opens) interner firstStocked secondStocked
  | false =>
    rw [if_neg Bool.false_ne_true, if_neg Bool.false_ne_true, sameFiles]

include noCollisions keepIds in
theorem analyzedFresh_of_airKey (cover : KeysCoverInputs blake3 parseCodec compiler builds)
    (firstMember : first ∈ cachingBuilds builds) (secondMember : second ∈ cachingBuilds builds)
    (same : airKey blake3 first = airKey blake3 second) :
    analyzedFresh blake3 parseCodec compiler first = analyzedFresh blake3 parseCodec compiler second := by
  obtain ⟨sameOptions, sameTexts⟩ := options_of_airKey noCollisions firstMember secondMember same
  obtain ⟨sameFiles, sameOpens, sameReads⟩ :=
    cover first firstMember second secondMember sameOptions sameTexts
  have samePaths : (first.sources.map fun entry => (entry.1.fileId, entry.1.path)) =
      second.sources.map fun entry => (entry.1.fileId, entry.1.path) := by
    have projected := congrArg (List.map fun file : SourceFile => (file.fileId, file.path)) sameFiles
    rw [List.map_map, List.map_map] at projected
    exact projected
  have sameParse : ∀ interner, (parseSources blake3 parseCodec compiler first interner {}).1 =
        (parseSources blake3 parseCodec compiler second interner {}).1 := fun interner =>
    parseSources_congr noCollisions keepIds firstMember.1 sameOptions sameFiles sameOpens interner
      ContentStore.written_empty ContentStore.written_empty
  have sameProgram : analysis blake3 parseCodec compiler first = analysis blake3 parseCodec compiler second := by
    unfold analysis
    simp [sameOptions, sameParse, samePaths]
  unfold analyzedFresh
  rw [Program.run_congr sameReads, sameProgram]

include noCollisions keepIds in
theorem parseAndLower_spec {build : UnitBuild} (member : build ∈ builds)
    (stocked : UnitStocked blake3 parseCodec airCodec compiler builds store) :
    (parseAndLower blake3 parseCodec compiler build store).1 = (parseAndLower blake3 parseCodec compiler build {}).1 ∧
      UnitStocked blake3 parseCodec airCodec compiler builds
        (parseAndLower blake3 parseCodec compiler build store).2 := by
  have noParseCollisions : Set.InjOn blake3 (hashedFor blake3 (parsedFiles builds)) :=
    noCollisions.mono Set.subset_union_left
  unfold parseAndLower
  cases (compiler.prelude build.options.previewFeatures).run build.files with
  | error errors => exact ⟨rfl, stocked⟩
  | ok prelude =>
    have same := parseSources_congr noCollisions keepIds member rfl rfl rfl prelude.interner
      stocked.parse (unitStocked_empty blake3 parseCodec airCodec compiler builds).parse
    have stockedNext : UnitStocked blake3 parseCodec airCodec compiler builds
        (parseSources blake3 parseCodec compiler build prelude.interner store).2 := by
      unfold parseSources
      cases opens : build.parseOpens with
      | false => exact stocked
      | true =>
        simp only [if_true]
        refine ⟨(parseFilesInto_spec noParseCollisions keepIds build.sources
          (mem_parsedFiles member opens) prelude.interner stocked.parse).1, ?_, ?_⟩
        · rw [entries_parseFilesInto _ _ _ _ (by decide)]
          exact stocked.air
        · rw [entries_parseFilesInto _ _ _ _ (by decide)]
          exact stocked.bitcode
    dsimp only
    cases ran : parseSources blake3 parseCodec compiler build prelude.interner store with
    | mk result storeNext =>
      cases ranFresh : parseSources blake3 parseCodec compiler build prelude.interner {} with
      | mk resultFresh storeFresh =>
        rw [ran] at same stockedNext
        rw [ranFresh] at same
        subst same
        cases result with
        | error failure => exact ⟨rfl, stockedNext⟩
        | ok parsed =>
          dsimp only
          cases compiler.lower (prelude.files ++ parsed.1) parsed.2 with
          | error errors => exact ⟨rfl, stockedNext⟩
          | ok lowered => exact ⟨rfl, stockedNext⟩

theorem analyzedFresh_of_lowered {build : UnitBuild} {lowered : Lowered Rir}
    (isLowered : (parseAndLower blake3 parseCodec compiler build {}).1 = .ok lowered) :
    analyzedFresh blake3 parseCodec compiler build = liftErrors (runSema compiler build lowered) := by
  rw [analyzedFresh_eq, isLowered]

theorem UnitStocked.putAir {build : UnitBuild}
    (stocked : UnitStocked blake3 parseCodec airCodec compiler builds store)
    (member : build ∈ cachingBuilds builds) {bytes : Bytes}
    (yields : yieldsAir blake3 parseCodec airCodec compiler build bytes) (disk : Disk) :
    UnitStocked blake3 parseCodec airCodec compiler builds (store.put disk .air (airKey blake3 build) bytes) := by
  refine ⟨?_, ?_, ?_⟩
  · unfold Stocked
    rw [entries_put_of_ne _ _ (by decide)]
    exact stocked.parse
  · cases writable : disk.writable with
    | false => simpa [CacheStore.put, writable] using stocked.air
    | true => exact stocked.air.insert member yields (entries_put store writable .air _ bytes)
  · rw [entries_put_of_ne _ _ (by decide)]
    exact stocked.bitcode

theorem UnitStocked.putBitcode {build : UnitBuild}
    (stocked : UnitStocked blake3 parseCodec airCodec compiler builds store)
    (member : build ∈ cachingBuilds builds) {bytes : Bytes}
    (yields : yieldsBitcode blake3 parseCodec compiler build bytes) (disk : Disk) :
    UnitStocked blake3 parseCodec airCodec compiler builds (store.put disk .llvmIr (airKey blake3 build) bytes) := by
  refine ⟨?_, ?_, ?_⟩
  · unfold Stocked
    rw [entries_put_of_ne _ _ (by decide)]
    exact stocked.parse
  · rw [entries_put_of_ne _ _ (by decide)]
    exact stocked.air
  · cases writable : disk.writable with
    | false => simpa [CacheStore.put, writable] using stocked.bitcode
    | true =>
      exact stocked.bitcode.insert member yields (entries_put store writable .llvmIr _ bytes)

theorem analyze_eq (build : UnitBuild) (lowered : Lowered Rir) (store : CacheStore) :
    analyze blake3 airCodec compiler build lowered store =
      (finishAll compiler (loadAir blake3 airCodec compiler build lowered store).1,
        (loadAir blake3 airCodec compiler build lowered store).2) := by
  unfold analyze
  cases loadAir blake3 airCodec compiler build lowered store with
  | mk result after => cases result <;> rfl

theorem missAir_spec {build : UnitBuild} (caching : build ∈ cachingBuilds builds)
    {lowered : Lowered Rir} (fresh : analyzedFresh blake3 parseCodec compiler build =
      liftErrors (runSema compiler build lowered))
    (stocked : UnitStocked blake3 parseCodec airCodec compiler builds store) :
    (missAir blake3 airCodec compiler build lowered store).1 = runSema compiler build lowered ∧
      UnitStocked blake3 parseCodec airCodec compiler builds
        (missAir blake3 airCodec compiler build lowered store).2 := by
  unfold missAir
  cases ran : runSema compiler build lowered with
  | error errors => exact ⟨rfl, stocked⟩
  | ok result =>
    dsimp only
    cases encoded : airCodec.encode (cacheAir result.1 result.2) with
    | none => exact ⟨rfl, stocked⟩
    | some bytes =>
      rw [ran] at fresh
      exact ⟨rfl, stocked.putAir caching ⟨result.1, result.2, fresh, encoded⟩ build.airDisk⟩

include noCollisions keepIds in
theorem loadAir_spec (cover : KeysCoverInputs blake3 parseCodec compiler builds) {build : UnitBuild}
    (member : build ∈ builds) {lowered : Lowered Rir}
    (isLowered : (parseAndLower blake3 parseCodec compiler build {}).1 = .ok lowered)
    (stocked : UnitStocked blake3 parseCodec airCodec compiler builds store) :
    finishAll compiler (loadAir blake3 airCodec compiler build lowered store).1 =
        finishAll compiler (runSema compiler build lowered) ∧
      UnitStocked blake3 parseCodec airCodec compiler builds
        (loadAir blake3 airCodec compiler build lowered store).2 := by
  have fresh := analyzedFresh_of_lowered isLowered
  unfold loadAir
  cases opens : build.airOpens with
  | false => exact ⟨rfl, stocked⟩
  | true =>
    have caching : build ∈ cachingBuilds builds := ⟨member, .inl opens⟩
    obtain ⟨missed, stockedMiss⟩ := missAir_spec caching fresh stocked
    simp only [if_true, CacheStore.get]
    cases build.airDisk.readable with
    | false => exact ⟨congrArg (finishAll compiler) missed, stockedMiss⟩
    | true =>
      simp only [if_true]
      cases found : store.entries .air (airKey blake3 build) with
      | none => exact ⟨congrArg (finishAll compiler) missed, stockedMiss⟩
      | some bytes =>
        have yielded : yieldsAir blake3 parseCodec airCodec compiler build bytes := by
          refine stocked.air.lookup (fun other otherMember sameKey bytes yields => ?_) found
          obtain ⟨output, after, analyzed, encoded⟩ := yields
          rw [analyzedFresh_of_airKey noCollisions keepIds cover otherMember caching sameKey] at analyzed
          exact ⟨output, after, analyzed, encoded⟩
        obtain ⟨output, after, analyzed, encoded⟩ := yielded
        rw [fresh] at analyzed
        have ran : runSema compiler build lowered = .ok (output, after) := by
          cases result : runSema compiler build lowered with
          | error errors =>
            rw [result] at analyzed
            cases analyzed
          | ok value =>
            rw [result] at analyzed
            cases analyzed
            rfl
        obtain ⟨grows, nodup⟩ := compiler.interner_grows ran
        have replayed : ((InternerSnapshot.capture after).restoreInto lowered.interner).2 =
            after := restoreStrings_of_isPrefix grows nodup
        simp only [airCodec.decode_encode encoded, ran]
        refine ⟨?_, stocked⟩
        change finishAll compiler (.ok (restoreAir (cacheAir output after),
          ((InternerSnapshot.capture after).restoreInto lowered.interner).2)) = _
        rw [replayed]
        rfl

def bitcodeFresh (compiler : Compiler Errors Rir Air Pool Interfaces Warning Cfgs)
    (build : UnitBuild) (analyzed : Analyzed Cfgs Pool Interfaces) : Except Errors Bytes :=
  if compiler.hasMain analyzed.functions then
    compiler.generateBitcode analyzed build.options.target
  else .error compiler.noMainFunction

include noCollisions keepIds in
theorem compileBitcode_spec (cover : KeysCoverInputs blake3 parseCodec compiler builds)
    {build : UnitBuild} (member : build ∈ builds) {output : SemaOutput Air Pool Interfaces Warning}
    {interner : Interner}
    (fresh : analyzedFresh blake3 parseCodec compiler build = .ok (output, interner))
    (stocked : UnitStocked blake3 parseCodec airCodec compiler builds store) :
    (compileBitcode blake3 compiler build (finishAnalysis compiler output interner) store).1 =
        bitcodeFresh compiler build (finishAnalysis compiler output interner) ∧
      UnitStocked blake3 parseCodec airCodec compiler builds
        (compileBitcode blake3 compiler build (finishAnalysis compiler output interner) store).2 := by
  unfold compileBitcode bitcodeFresh
  cases compiler.hasMain (finishAnalysis compiler output interner).functions with
  | false => exact ⟨rfl, stocked⟩
  | true =>
    cases opens : build.bitcodeOpens with
    | false => exact ⟨rfl, stocked⟩
    | true =>
      have caching : build ∈ cachingBuilds builds := ⟨member, .inr opens⟩
      have missed : (missBitcode blake3 compiler build (finishAnalysis compiler output interner) store).1 =
          compiler.generateBitcode (finishAnalysis compiler output interner) build.options.target ∧
          UnitStocked blake3 parseCodec airCodec compiler builds
            (missBitcode blake3 compiler build (finishAnalysis compiler output interner) store).2 := by
        unfold missBitcode
        cases generated : compiler.generateBitcode (finishAnalysis compiler output interner) build.options.target with
        | error errors => exact ⟨rfl, stocked⟩
        | ok bitcode =>
          exact ⟨rfl, stocked.putBitcode caching ⟨output, interner, fresh, generated⟩ build.bitcodeDisk⟩
      simp only [if_true, CacheStore.get]
      cases build.bitcodeDisk.readable with
      | false => exact missed
      | true =>
        cases found : store.entries .llvmIr (airKey blake3 build) with
        | none => exact missed
        | some bitcode =>
          have yielded : yieldsBitcode blake3 parseCodec compiler build bitcode := by
            refine stocked.bitcode.lookup (fun other otherMember sameKey bytes yields => ?_) found
            obtain ⟨output, after, analyzed, generated⟩ := yields
            rw [analyzedFresh_of_airKey noCollisions keepIds cover otherMember caching sameKey] at analyzed
            rw [(options_of_airKey noCollisions otherMember caching sameKey).1] at generated
            exact ⟨output, after, analyzed, generated⟩
          obtain ⟨_, _, analyzed, generated⟩ := yielded
          rw [fresh] at analyzed
          cases analyzed
          exact ⟨generated.symm, stocked⟩

def runFresh (blake3 : Bytes → CacheKey) (parseCodec : Codec CachedParseOutput)
    (compiler : Compiler Errors Rir Air Pool Interfaces Warning Cfgs) (build : UnitBuild) :
    Except (Failure Errors) (Analyzed Cfgs Pool Interfaces × Except Errors Bytes) :=
  match analyzedFresh blake3 parseCodec compiler build with
  | .error failure => .error failure
  | .ok (output, interner) =>
    .ok (finishAnalysis compiler output interner,
      bitcodeFresh compiler build (finishAnalysis compiler output interner))

include noCollisions keepIds in
theorem runUnit_spec (cover : KeysCoverInputs blake3 parseCodec compiler builds) {build : UnitBuild}
    (member : build ∈ builds)
    (stocked : UnitStocked blake3 parseCodec airCodec compiler builds store) :
    (runUnit blake3 parseCodec airCodec compiler build store).1 = runFresh blake3 parseCodec compiler build ∧
      UnitStocked blake3 parseCodec airCodec compiler builds
        (runUnit blake3 parseCodec airCodec compiler build store).2 := by
  obtain ⟨sameLowered, stockedLowered⟩ := parseAndLower_spec noCollisions keepIds member stocked
  unfold runUnit runFresh
  rw [analyzedFresh_eq]
  cases lowerRan : parseAndLower blake3 parseCodec compiler build store with
  | mk result storeLowered =>
    rw [lowerRan] at sameLowered stockedLowered
    rw [← sameLowered]
    cases result with
    | error failure => exact ⟨rfl, stockedLowered⟩
    | ok lowered =>
      obtain ⟨sameAir, stockedAir⟩ :=
        loadAir_spec noCollisions keepIds cover member sameLowered.symm stockedLowered
      dsimp only
      rw [analyze_eq, sameAir]
      cases ran : runSema compiler build lowered with
      | error errors => exact ⟨rfl, stockedAir⟩
      | ok result =>
        have fresh : analyzedFresh blake3 parseCodec compiler build = .ok result := by
          rw [analyzedFresh_of_lowered sameLowered.symm, ran]
          rfl
        obtain ⟨sameBitcode, stockedBitcode⟩ :=
          compileBitcode_spec noCollisions keepIds cover member fresh stockedAir
        simp only [finishAll, Except.map, liftErrors, sameBitcode]
        exact ⟨trivial, stockedBitcode⟩

include noCollisions keepIds in
theorem runUnits_eq (cover : KeysCoverInputs blake3 parseCodec compiler builds)
    {later : List UnitBuild} (members : ∀ build ∈ later, build ∈ builds)
    (stocked : UnitStocked blake3 parseCodec airCodec compiler builds store) :
    runUnits blake3 parseCodec airCodec compiler later store =
      later.map (runUncached blake3 parseCodec airCodec compiler) := by
  induction later generalizing store with
  | nil => rfl
  | cons build later ih =>
    have member := members build (.head _)
    obtain ⟨result, stockedAfter⟩ := runUnit_spec noCollisions keepIds cover member stocked
    have uncached := (runUnit_spec noCollisions keepIds cover member
      (unitStocked_empty blake3 parseCodec airCodec compiler builds)).1
    simp only [runUnits, List.map_cons, result, runUncached, uncached]
    rw [ih (fun other inside => members other (.tail _ inside)) stockedAfter]

end Units

/-- Over any history of builds in which the key covers what analysis depends on, the AIR and
bitcode caches are transparent. -/
theorem runUnits_eq_runUncached {Errors Rir Air Pool Interfaces Warning Cfgs : Type}
    (blake3 : Bytes → CacheKey) (parseCodec : Codec CachedParseOutput)
    (airCodec : Codec (CachedAirOutput Air Pool Interfaces))
    (compiler : Compiler Errors Rir Air Pool Interfaces Warning Cfgs) (builds : List UnitBuild)
    (noCollisions : Set.InjOn blake3 (hashedForUnits blake3 builds))
    (keepIds : TextsKeepIds (parsedFiles builds))
    (cover : KeysCoverInputs blake3 parseCodec compiler builds) :
    runUnits blake3 parseCodec airCodec compiler builds {} =
      builds.map (runUncached blake3 parseCodec airCodec compiler) :=
  runUnits_eq noCollisions keepIds cover (fun _ member => member)
    (unitStocked_empty blake3 parseCodec airCodec compiler builds)

namespace AirSample

def output (fileId : FileId) : CachedParseOutput where
  interner := ⟨["main", "embed_file", "a"]⟩
  ast := .node .ast [ .opt none, .list [
        .node .itemFunction [ .node .function [ .opt none, .list [], .scalar 0, .scalar 0,
            .node .ident [.spur 0, .span ⟨fileId, 3, 7⟩],
            .list [], .opt none,
            .node .exprBlock [ .node .blockExpr [ .list [ .node .statementExpr [
                    .node .exprIntrinsicCall [ .node .intrinsicCallExpr [
                        .node .ident [.spur 1, .span ⟨fileId, 13, 23⟩],
                        .list [ .node .intrinsicArgExpr [ .node .exprString [
                              .node .stringLit [.spur 2, .span ⟨fileId, 24, 27⟩]]]],
                        .span ⟨fileId, 12, 28⟩]]]],
                .node .exprUnit [.node .unitLit [.span ⟨fileId, 30, 30⟩]],
                .span ⟨fileId, 10, 31⟩]],
            .span ⟨fileId, 0, 31⟩]]]]

theorem embedded_fits : ([97] : Bytes).length < 2 ^ 64 := by decide

def embedded : Path := ⟨[97], embedded_fits⟩

def semaOutput (bytes : Bytes) : SemaOutput Unit Unit Unit Unit := ⟨(), (), [], [bytes], (), [], []⟩

def compiler : Compiler Unit Unit Unit Unit Unit Unit Unit where
  frontEnd := {
    parse := fun _ _ fileId => .ok (output fileId)
    conforms := by
      intro features source fileId parsed same
      cases same
      rfl
    interned := by
      intro features source fileId parsed same
      cases same
      intro symbol member
      have below : symbol = 0 ∨ symbol = 1 ∨ symbol = 2 := by
        simpa [output, Ast.Tree.spurs, spursAll] using member
      change symbol < 3
      omega }
  prelude _ := .done (.ok ⟨[], [], []⟩)
  parseShared _ _ interner := .ok ([], interner)
  lower _ interner := .ok ((), interner)
  runSema _ interner _ _ := .read embedded fun content => .done (match content with
      | some bytes => if interner.Nodup then .ok (semaOutput bytes, interner) else .error ()
      | none => .error ())
  buildCfgs _ _ interner := ((), interner)
  hasMain _ := true
  noMainFunction := ()
  generateBitcode analyzed _ := .ok analyzed.bytes.flatten
  interner_grows := by
    intro _ interner _ _ files _ _ ran
    simp only [Program.run] at ran
    cases content : files embedded with
    | none =>
      rw [content] at ran
      cases ran
    | some bytes =>
      rw [content] at ran
      dsimp only at ran
      split at ran
      case isTrue nodup =>
          cases ran
          exact ⟨List.prefix_rfl, nodup⟩
      case isFalse => cases ran

noncomputable def parseCodec : Codec CachedParseOutput := ParseSample.codecOf output

def cachedAir (bytes : Bytes) : CachedAirOutput Unit Unit Unit :=
  cacheAir (semaOutput bytes) ["main", "embed_file", "a"]

/-- A wire format for what analysis finds when the file `a` holds one byte. -/
def airCodec : Codec (CachedAirOutput Unit Unit Unit) where
  encode cached :=
    if cached = cachedAir [1] then some [1] else if cached = cachedAir [2] then some [2] else none
  decode bytes :=
    if bytes = [1] then some (cachedAir [1]) else if bytes = [2] then some (cachedAir [2]) else none
  decode_encode := by
    intro _ bytes encoded
    split at encoded
    case isTrue same =>
        cases encoded
        rw [same]
        rfl
    case isFalse =>
        split at encoded
        case isTrue same =>
            cases encoded
            rw [same]
            rfl
        case isFalse => cases encoded

def source : SourceFile where
  path := ⟨[109], by decide⟩
  source := ⟨[102, 110, 32, 109, 97, 105, 110, 40, 41, 32, 123, 32, 64, 101, 109, 98, 101, 100, 95,
    102, 105, 108, 101, 40, 34, 97, 34, 41, 59, 32, 125], by decide⟩
  fileId := 1

def build (byte : UInt8) : UnitBuild where
  options := ParseSample.options
  sources := [(source, {})]
  files _ := some [byte]

def parseKeyOf : CacheKey :=
  parseKey ParseSample.blake3 (buildFingerprint ParseSample.blake3 ParseSample.options) source.source

def parsed : CacheStore := ({} : CacheStore).put {} .parse parseKeyOf [1]

def key : CacheKey := airKey ParseSample.blake3 (build 1)

def analyzed (byte : UInt8) : Analyzed Unit Unit Unit :=
  ⟨(), (), [], [[byte]], (), ["main", "embed_file", "a"]⟩

def stocked (byte : UInt8) : CacheStore := (parsed.put {} .air key [byte]).put {} .llvmIr key [byte]

def lowered : Lowered Unit := ⟨(), ["main", "embed_file", "a"], [(1, source.path)]⟩

theorem parseAndLower_cold (byte : UInt8) :
    parseAndLower ParseSample.blake3 parseCodec compiler (build byte) {} = (.ok lowered, parsed) := by
  have encoded : parseCodec.encode (output 1) = some [1] := if_pos rfl
  have loaded : loadParse ParseSample.blake3 parseCodec compiler.frontEnd ParseSample.options source
      {} {} = (.ok (output 1), parsed) := by
    change (match parseCodec.encode (output 1) with
      | some bytes => (Except.ok (output 1), ({} : CacheStore).put {} .parse parseKeyOf bytes)
      | none => (Except.ok (output 1), {})) = _
    rw [encoded]
    rfl
  unfold parseAndLower parseSources build parseFilesInto
  simp only [loaded]
  rfl

theorem runUnit_cold (byte : UInt8) (encoded : airCodec.encode (cachedAir [byte]) = some [byte]) :
    runUnit ParseSample.blake3 parseCodec airCodec compiler (build byte) {} =
      (.ok (analyzed byte, .ok [byte]), stocked byte) := by
  have sameKey : airKey ParseSample.blake3 (build byte) = key := rfl
  have air : analyze ParseSample.blake3 airCodec compiler (build byte) lowered parsed =
      (.ok (analyzed byte), parsed.put {} .air key [byte]) := by
    have absent : parsed.entries .air key = none := rfl
    have ran : runSema compiler (build byte) lowered =
        .ok (semaOutput [byte], ["main", "embed_file", "a"]) := rfl
    have encodedHere : airCodec.encode (cacheAir (semaOutput [byte])
        ["main", "embed_file", "a"]) = some [byte] := encoded
    simp only [analyze, loadAir, missAir, CacheStore.get, sameKey, absent, ran, encodedHere]
    rfl
  have absent : (parsed.put {} .air key [byte]).entries .llvmIr key = none := rfl
  simp only [runUnit, parseAndLower_cold, air, compileBitcode, missBitcode, CacheStore.get,
    sameKey, absent]
  rfl

theorem runUnit_warm (byte : UInt8) :
    runUnit ParseSample.blake3 parseCodec airCodec compiler (build byte) (stocked 1) =
      (.ok (analyzed 1, .ok [1]), stocked 1) := by
  have sameKey : airKey ParseSample.blake3 (build byte) = key := rfl
  have inParse : (stocked 1).entries .parse parseKeyOf = some [1] := by
    unfold stocked
    rw [entries_put_of_ne _ _ (by decide), entries_put_of_ne _ _ (by decide)]
    exact (entries_put {} rfl .parse parseKeyOf [1] parseKeyOf).trans (if_pos rfl)
  have inAir : (stocked 1).entries .air key = some [1] := by
    unfold stocked
    rw [entries_put_of_ne _ _ (by decide)]
    exact (entries_put parsed rfl .air key [1] key).trans (if_pos rfl)
  have inBitcode : (stocked 1).entries .llvmIr key = some [1] :=
    (entries_put _ rfl .llvmIr key [1] key).trans (if_pos rfl)
  have loaded : loadParse ParseSample.blake3 parseCodec compiler.frontEnd ParseSample.options source
      {} (stocked 1) = (.ok (output 1), stocked 1) := by
    have sameParseKey : parseKey ParseSample.blake3
        (buildFingerprint ParseSample.blake3 ParseSample.options) source.source = parseKeyOf := rfl
    simp only [loadParse, CacheStore.get, sameParseKey, inParse, if_true]
    rfl
  have lower : parseAndLower ParseSample.blake3 parseCodec compiler (build byte) (stocked 1) =
      (.ok lowered, stocked 1) := by
    unfold parseAndLower parseSources build parseFilesInto
    simp only [loaded]
    rfl
  have air : analyze ParseSample.blake3 airCodec compiler (build byte) lowered (stocked 1) =
      (.ok (analyzed 1), stocked 1) := by
    simp only [analyze, loadAir, CacheStore.get, sameKey, inAir]
    rfl
  simp only [runUnit, lower, air, compileBitcode, CacheStore.get, sameKey, inBitcode]
  rfl

theorem injOn_hashedForUnits (builds : List UnitBuild) (sample : ∀ other ∈ builds, ∃ byte, other = build byte) :
    Set.InjOn ParseSample.blake3 (hashedForUnits ParseSample.blake3 builds) := by
  have cases : ∀ bytes ∈ hashedForUnits ParseSample.blake3 builds,
      bytes = (fingerprintHasher ParseSample.options).mixed ∨ bytes = source.source.bytes ∨
      bytes = (parseKeyHasher ParseSample.blake3
        (buildFingerprint ParseSample.blake3 ParseSample.options) source.source).mixed ∨
      bytes = (airKeyHasher ParseSample.blake3 ParseSample.options [source]).mixed := by
    rintro bytes (⟨_, ⟨other, member, _, _, entryMember, rfl⟩, hashed⟩ | ⟨other, ⟨member, _⟩, hashed⟩)
    · obtain ⟨byte, rfl⟩ := sample other member
      cases List.mem_singleton.mp entryMember
      obtain same | same | same := hashed
      · exact .inl same
      · exact .inr (.inl same)
      · exact .inr (.inr (.inl same))
    · obtain ⟨byte, rfl⟩ := sample other member
      obtain same | same := hashed
      · exact .inl same
      · exact .inr (.inr (.inr same))
  intro first firstMember second secondMember same
  revert same
  obtain rfl | rfl | rfl | rfl := cases first firstMember <;>
    obtain rfl | rfl | rfl | rfl := cases second secondMember <;> decide +kernel

theorem keepIds (builds : List UnitBuild) (sample : ∀ other ∈ builds, ∃ byte, other = build byte) :
    TextsKeepIds (parsedFiles builds) := by
  have oneId : ∀ input ∈ parsedFiles builds, input.2.fileId = 1 := by
    rintro input ⟨other, member, _, _, entryMember, rfl⟩
    obtain ⟨byte, rfl⟩ := sample other member
    cases List.mem_singleton.mp entryMember
    rfl
  intro first firstMember second secondMember _ _
  rw [oneId first firstMember, oneId second secondMember]

/-- The file `a` is edited between two builds of the same source: the second build still
embeds the old contents. -/
theorem stale_embedded_file : Set.InjOn ParseSample.blake3 (hashedForUnits ParseSample.blake3 [build 1, build 2]) ∧
      TextsKeepIds (parsedFiles [build 1, build 2]) ∧
      runUnits ParseSample.blake3 parseCodec airCodec compiler [build 1, build 2] {} ≠
        [build 1, build 2].map (runUncached ParseSample.blake3 parseCodec airCodec compiler) := by
  have sample : ∀ other ∈ [build 1, build 2], ∃ byte, other = build byte := by simp
  refine ⟨injOn_hashedForUnits _ sample, keepIds _ sample, fun same => ?_⟩
  simp only [runUnits, runUncached, List.map_cons, List.map_nil, runUnit_cold 1 rfl,
    runUnit_cold 2 rfl, runUnit_warm 2] at same
  have second : (.ok (analyzed 1, .ok [1]) : Except (Failure Unit) (Analyzed Unit Unit Unit × Except Unit Bytes)) =
      .ok (analyzed 2, .ok [2]) := (List.cons.inj (List.cons.inj same).2).1
  simp at second

/-- With the file left alone, the second build hits and is right. -/
theorem unchanged_embedded_file :
    Set.InjOn ParseSample.blake3 (hashedForUnits ParseSample.blake3 [build 1, build 1]) ∧
      TextsKeepIds (parsedFiles [build 1, build 1]) ∧
      KeysCoverInputs ParseSample.blake3 parseCodec compiler [build 1, build 1] ∧
      runUnits ParseSample.blake3 parseCodec airCodec compiler [build 1, build 1] {} =
        [build 1, build 1].map (runUncached ParseSample.blake3 parseCodec airCodec compiler) := by
  have sample : ∀ other ∈ [build 1, build 1], ∃ byte, other = build byte := by simp
  have cover : KeysCoverInputs ParseSample.blake3 parseCodec compiler [build 1, build 1] := by
    rintro first ⟨firstMember, _⟩ second ⟨secondMember, _⟩ _ _
    obtain rfl : first = build 1 := by simpa using firstMember
    obtain rfl : second = build 1 := by simpa using secondMember
    exact ⟨rfl, rfl, fun _ _ => rfl⟩
  exact ⟨injOn_hashedForUnits _ sample, keepIds _ sample, cover,
    runUnits_eq_runUncached ParseSample.blake3 parseCodec airCodec compiler [build 1, build 1]
      (injOn_hashedForUnits _ sample) (keepIds _ sample) cover⟩

end AirSample

end Cache

end Gruel
