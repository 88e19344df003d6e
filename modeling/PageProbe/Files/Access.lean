import PageProbe.Text.Bytes
import PageProbe.Text.Split

namespace PageProbe

open Text (Bytes)

/-- Why a file could not be read. -/
inductive FileError where
  | missing
  | notDirectory
  | isDirectory
  | tooManyLinks
  | notText
  /-- What else the system says. -/
  | other (message : String)
deriving DecidableEq, Repr, Inhabited

def FileError.message : FileError → String
  | missing => "No such file or directory (os error 2)"
  | notDirectory => "Not a directory (os error 20)"
  | isDirectory => "Is a directory (os error 21)"
  | tooManyLinks => "Too many levels of symbolic links (os error 40)"
  | notText => "stream did not contain valid UTF-8"
  | other message => message

inductive FileKind where
  | file
  | directory
deriving DecidableEq, Repr, Inhabited

/-- The operations on files. All but `walk` follow links. -/
structure FileAccess (m : Type → Type) where
  /-- What a path leads to, or nothing when it leads nowhere. -/
  kind? : String → m (Option FileKind)
  read : String → m (Except FileError Bytes)
  /-- The files below a directory, as components from there on, in any order. Links are left out, and
      so is what lies in directories whose names are not to be entered. A failure names the directory
      that could not be read. -/
  walk : (String → Bool) → String → m (Except (String × FileError) (List (List String)))

namespace FileAccess

variable {m : Type → Type} [Monad m]

def pathExists (files : FileAccess m) (path : String) : m Bool := do
  return (← files.kind? path).isSome

def isFile (files : FileAccess m) (path : String) : m Bool := do
  return (← files.kind? path) == some .file

/-- The text of a file, which has to be UTF-8. -/
def readText (files : FileAccess m) (path : String) : m (Except FileError String) := do
  match ← files.read path with
  | .error e => return .error e
  | .ok bytes =>
    match Text.decode? bytes with
    | some text => return .ok text
    | none => return .error .notText

end FileAccess

namespace Location

def components (path : String) : List String :=
  (Text.split (· == '/') path.toList).map String.ofList

def isAbsolute (path : String) : Bool := path.toList.head? == some '/'

/-- A path seen from a directory. An absolute path stays as it is. -/
def join (base path : String) : String :=
  if isAbsolute path || base.isEmpty then path
  else if base.toList.getLast? == some '/' then base ++ path
  else base ++ "/" ++ path

/-- The path of a file below a directory. -/
def below (base : String) (names : List String) : String := names.foldl join base

/-- Whether a component leads nowhere else. -/
private def isStill (component : String) : Bool := component == "" || component == "."

/-- The last component that leads somewhere, unless it leads back. -/
def fileName? (path : String) : Option String :=
  match ((components path).filter fun c => !isStill c).getLast? with
  | some ".." => none
  | name => name

/-- The path without its last component. -/
def parent (path : String) : String :=
  let kept := ((components path).reverse.dropWhile isStill).drop 1
  match (kept.dropWhile isStill).reverse with
  | [] => if isAbsolute path then "/" else ""
  | names => String.intercalate "/" names

/-- What follows the last point of a file name, if something stands before that point. -/
def extension? (name : String) : Option String :=
  let cs := name.toList.reverse
  match cs.dropWhile (· != '.') with
  | _ :: _ :: _ => some (String.ofList (cs.takeWhile (· != '.')).reverse)
  | _ => none

end Location
end PageProbe
