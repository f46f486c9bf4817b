import Gruel.ImportsCore

/-!
What `@import` resolves to. Resolution searches the loaded files by four ranks;
a path of the rank that decides is the answer for every order of the files when
it is the only one, and it names the import except at the rank of file stems.
-/

namespace Gruel.Imports

open FirstMatch

inductive Rank
  | exact
  | trailing
  | stem
  | facade
  deriving DecidableEq, Repr

namespace ModulePath

def target : ModulePath → Path
  | .std => []
  | .explicitRue path => path
  | .simple path => path ++ extension

def written : ModulePath → Path
  | .std => []
  | .explicitRue path | .simple path => path

def ranks : ModulePath → List Rank
  | .std => []
  | .explicitRue _ => [.exact, .trailing]
  | .simple _ => [.exact, .trailing, .stem, .facade]

def accepts (modulePath : ModulePath) : Rank → Path → Bool
  | .exact, filePath => filePath == modulePath.target
  | .trailing, filePath => endsAtBoundary modulePath.target filePath
  | .stem, filePath => fileStem filePath == some (basename modulePath.written)
  | .facade, filePath => fileName filePath == some (facadeName modulePath.written)

theorem resolve_eq_firstMatch (modulePath : ModulePath) (loaded : List Path) :
    modulePath.resolve loaded = firstMatch modulePath.accepts modulePath.ranks loaded := by
  cases modulePath with
  | std => rfl
  | explicitRue path =>
    simp [ranks, resolve, resolveExplicit]
    rfl
  | simple path =>
    simp [ranks, resolve, resolveSimple]
    rfl

end ModulePath

theorem endsAtBoundary_iff {importPath filePath : Path} :
    endsAtBoundary importPath filePath = true ↔ ∃ directory, filePath = directory ++ importPath ∧
      (directory = [] ∨ directory.getLast? = some '/') := by
  simp only [endsAtBoundary, Bool.and_eq_true, List.isSuffixOf_iff_suffix]
  have cut : ∀ directory : Path,
      (directory ++ importPath).take ((directory ++ importPath).length - importPath.length) = directory := by simp
  constructor
  · rintro ⟨⟨directory, rfl⟩, boundary⟩
    rw [cut] at boundary
    refine ⟨directory, rfl, ?_⟩
    cases last : directory.getLast? with
    | none => exact .inl (List.getLast?_eq_none_iff.mp last)
    | some before =>
      rw [last] at boundary
      exact .inr (congrArg some (beq_iff_eq.mp boundary))
  · rintro ⟨directory, rfl, boundary⟩
    refine ⟨⟨directory, rfl⟩, ?_⟩
    rw [cut]
    rcases boundary with rfl | last
    · rfl
    · simp [last]

theorem exists_directory {parts : List Path} (nonempty : parts ≠ []) (front : List Path) :
    ∃ directory, ['/'].intercalate (front ++ parts) = directory ++ ['/'].intercalate parts ∧
      (directory = [] ∨ directory.getLast? = some '/') := by
  induction front with
  | nil => exact ⟨[], rfl, .inl rfl⟩
  | cons part front ih =>
    obtain ⟨directory, joined, boundary⟩ := ih
    refine ⟨part ++ ['/'] ++ directory, ?_, .inr ?_⟩
    · rw [List.cons_append, List.intercalate_cons_of_ne_nil (by simp [nonempty]), joined]
      simp
    · rcases boundary with rfl | last
      · simp
      · rw [List.getLast?_append, last, Option.some_or]

/-- The boundary test compares components. -/
theorem endsAtBoundary_iff_suffix {importPath filePath : Path} : endsAtBoundary importPath filePath = true ↔
      importPath.splitOn '/' <:+ filePath.splitOn '/' := by
  rw [endsAtBoundary_iff]
  constructor
  · rintro ⟨directory, rfl, rfl | last⟩
    · exact List.suffix_rfl
    · obtain ⟨_, rfl⟩ := List.getLast?_eq_some_iff.mp last
      rw [List.append_assoc, List.singleton_append, List.splitOn_append_cons_self]
      exact List.suffix_append _ _
  · rintro ⟨front, split⟩
    obtain ⟨directory, joined, boundary⟩ :=
      exists_directory (List.splitOn_ne_nil '/' importPath) front
    rw [split, List.intercalate_splitOn, List.intercalate_splitOn] at joined
    exact ⟨directory, joined, boundary⟩

theorem rsplitFileAtDot_extension {front : Path} (nonempty : front ≠ []) :
    rsplitFileAtDot (front ++ extension) = front := by
  have dots : front ++ extension ≠ ['.', '.'] := by
    intro same
    have length := congrArg List.length same
    simp [extension] at length
  obtain ⟨first, rest, rfl⟩ := List.exists_cons_of_ne_nil nonempty
  have cut : ((first :: rest) ++ extension).reverse.dropWhile (· ≠ '.') = '.' :: (first :: rest).reverse := by
    rw [List.reverse_append]
    rfl
  rw [rsplitFileAtDot, if_neg dots, cut]
  cases reversed : (first :: rest).reverse with
  | nil => simp at reversed
  | cons last front =>
    simp only
    rw [← reversed, List.reverse_reverse]

/-- The last components of the file's path are those of the import path, or the file is the facade
of the directory that the import path names. -/
def Names (modulePath : ModulePath) (filePath : Path) : Prop :=
  modulePath.target.splitOn '/' <:+ filePath.splitOn '/' ∨
    ∃ path, modulePath = .simple path ∧ fileName filePath = some (facadeName path)

variable {modulePath : ModulePath} {loaded : List Path} {found : Path} {rank : Rank}

theorem not_names_of_stem {path : Path} (noTrailing : loaded.any ((ModulePath.simple path).accepts .trailing) = false)
    (member : found ∈ loaded) (stem : (ModulePath.simple path).accepts .stem found = true) :
    ¬ Names (.simple path) found := by
  rintro (suffix | ⟨_, same, facade⟩)
  · have rejected := List.any_eq_false.mp noTrailing found member
    exact rejected (endsAtBoundary_iff_suffix.2 suffix)
  · cases same
    -- The stem of the facade is longer than the basename by its underscore.
    have long : rsplitFileAtDot (facadeName path) = '_' :: basename path :=
      rsplitFileAtDot_extension (List.cons_ne_nil _ _)
    have short : fileStem found = some (basename path) := beq_iff_eq.mp stem
    rw [fileStem, facade, Option.map_some, long, Option.some.injEq] at short
    exact absurd (congrArg List.length short) (by simp)

/-- An answer names the import unless the rank of stems decided. -/
theorem names_iff (decides : deciding modulePath.accepts modulePath.ranks loaded = some rank)
    (member : found ∈ loaded) (accepted : modulePath.accepts rank found = true) :
    Names modulePath found ↔ rank ≠ .stem := by
  have listed := List.mem_of_find?_eq_some decides
  cases rank with
  | exact =>
    have same : found = modulePath.target := beq_iff_eq.mp accepted
    simp [Names, same]
  | trailing => simp [Names, endsAtBoundary_iff_suffix.1 accepted]
  | stem =>
    cases modulePath with
    | std => cases listed
    | explicitRue path => simp [ModulePath.ranks] at listed
    | simple path =>
      have noTrailing : loaded.any ((ModulePath.simple path).accepts .trailing) = false := by
        obtain ⟨-, before, _, split, rejected⟩ :=
          List.find?_eq_some_iff_append.mp decides
        rcases before with _ | ⟨_, _ | ⟨_, before⟩⟩
        · cases split
        · cases split
        · obtain rfl := (List.cons.inj (List.cons.inj split).2).1
          simpa using rejected .trailing (by simp)
      simpa using not_names_of_stem noTrailing member accepted
  | facade =>
    cases modulePath with
    | std => cases listed
    | explicitRue path => simp [ModulePath.ranks] at listed
    | simple path => simpa using .inr ⟨path, rfl, beq_iff_eq.mp accepted⟩

theorem resolution_iff (importPath : Path) (filePaths : List Path) :
    ((∀ other : List Path, other.Perm filePaths → resolveImportPathForConst other importPath =
          resolveImportPathForConst filePaths importPath) ∧
      ∀ found, resolveImportPathForConst filePaths importPath = some found →
        Names (ModulePath.parse importPath) found) ↔
    ∀ rank, deciding (ModulePath.parse importPath).accepts (ModulePath.parse importPath).ranks filePaths = some rank →
      rank ≠ .stem ∧ ∀ first ∈ filePaths, ∀ second ∈ filePaths,
        (ModulePath.parse importPath).accepts rank first = true →
        (ModulePath.parse importPath).accepts rank second = true → first = second := by
  simp only [resolveImportPathForConst, ModulePath.resolve_eq_firstMatch]
  rw [firstMatch_perm_iff]
  constructor
  · rintro ⟨single, names⟩ rank decides
    obtain ⟨found, isFound⟩ := exists_of_deciding decides
    obtain ⟨_, decides', member, accepted⟩ := firstMatch_eq_some isFound
    cases decides.symm.trans decides'
    exact ⟨(names_iff decides member accepted).mp (names found isFound), single rank decides⟩
  · intro clear
    refine ⟨fun rank decides => (clear rank decides).2, ?_⟩
    intro found isFound
    obtain ⟨rank, decides, member, accepted⟩ := firstMatch_eq_some isFound
    exact (names_iff decides member accepted).mpr (clear rank decides).1

namespace ImportSample

def utils : Path := ['u', '/', 'a']

def first : Path := ['v', '/', 'a', '.', 'g', 'r', 'u', 'e', 'l']

def second : Path := ['w', '/', 'a', '.', 'g', 'r', 'u', 'e', 'l']

/-- `@import("u/a")` finds `v/a.gruel` or `w/a.gruel`, the first that is listed. -/
theorem order_decides : ¬ ((∀ other : List Path, other.Perm [first, second] →
        resolveImportPathForConst other utils = resolveImportPathForConst [first, second] utils) ∧
      ∀ found, resolveImportPathForConst [first, second] utils = some found →
        Names (ModulePath.parse utils) found) := by
  rintro ⟨stable, -⟩
  exact absurd (stable [second, first] (List.Perm.swap first second [])) (by decide)

end ImportSample

end Gruel.Imports
