import Gruel.Lib.FirstMatch

/-!
Import paths: `ModulePath::parse` and `resolve` against the paths of the loaded
files, with the parts of `std::path::Path` they use.
-/

namespace Gruel.Imports

abbrev Path := List Char

def extension : Path := ['.', 'g', 'r', 'u', 'e', 'l']

def fileName (path : Path) : Option Path :=
  match ((path.splitOn '/').filter fun part => part ≠ [] ∧ part ≠ ['.']).getLast? with
  | some last => if last = ['.', '.'] then none else some last
  | none => none

def rsplitFileAtDot (name : Path) : Path :=
  if name = ['.', '.'] then name
  else
    match name.reverse.dropWhile (· ≠ '.') with
    | [] => name
    | [_] => name
    | _ :: front => front.reverse

def fileStem (path : Path) : Option Path := (fileName path).map rsplitFileAtDot

inductive ModulePath
  | std
  | explicitRue (path : Path)
  | simple (path : Path)
  deriving DecidableEq, Repr

def ModulePath.parse (importPath : Path) : ModulePath :=
  if importPath = ['s', 't', 'd'] then .std
  else if extension.isSuffixOf importPath then .explicitRue importPath
  else .simple importPath

def endsAtBoundary (importPath filePath : Path) : Bool :=
  importPath.isSuffixOf filePath &&
    match (filePath.take (filePath.length - importPath.length)).getLast? with
    | none => true
    | some before => before == '/'

def resolveExplicit (importPath : Path) (loadedPaths : List Path) : Option Path :=
  (loadedPaths.find? fun filePath => filePath == importPath) <|> loadedPaths.find? (endsAtBoundary importPath)

def basename (importPath : Path) : Path := (fileName importPath).getD importPath

def facadeName (importPath : Path) : Path := '_' :: basename importPath ++ extension

def resolveSimple (importPath : Path) (loadedPaths : List Path) : Option Path :=
  (loadedPaths.find? fun filePath => filePath == importPath ++ extension) <|>
    (loadedPaths.find? (endsAtBoundary (importPath ++ extension)) <|>
      ((loadedPaths.find? fun filePath => fileStem filePath == some (basename importPath)) <|>
        loadedPaths.find? fun filePath => fileName filePath == some (facadeName importPath)))

def ModulePath.resolve : ModulePath → List Path → Option Path
  | .std, _ => none
  | .explicitRue path, loadedPaths => resolveExplicit path loadedPaths
  | .simple path, loadedPaths => resolveSimple path loadedPaths

/-- `none` is the error for a module that is not found. -/
def resolveImportPathForConst (filePaths : List Path) (importPath : Path) : Option Path :=
  (ModulePath.parse importPath).resolve filePaths

end Gruel.Imports
