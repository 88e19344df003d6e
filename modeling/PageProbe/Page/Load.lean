import PageProbe.Config.Settings
import PageProbe.Page.Analysis
import PageProbe.Page.Html
import PageProbe.Page.Resource

namespace PageProbe

structure LoadedPage where
  page : String
  scripts : List ScriptSource
  resources : List PageResource
deriving Repr, Inhabited

inductive LoadError where
  | file (path : String) (error : FileError)
  | directory (path : String) (error : FileError)
deriving DecidableEq, Repr, Inhabited

def LoadError.causes : LoadError → List Cause
  | file path e => [.words ("Failed to read file: " ++ path), .system e]
  | directory path e => [.words ("Failed to read directory: " ++ path), .system e]

namespace LoadedPage

variable {m : Type → Type} [Monad m]

private def endsWith (ending name : String) : Bool :=
  ending.toList.isSuffixOf name.toList

def isScriptName (name : String) : Bool := endsWith ".js" name

/-- Directories that are not searched for scripts. -/
def isSkipped (name : String) : Bool :=
  name.toList.head? == some '.' || name == "node_modules" || name == "dist" || name == "coverage"

/-- Whether a file name is that of a document. -/
def isDocumentName (name : String) : Bool :=
  match Location.extension? name with
  | some ext => ext == "html" || ext == "htm"
  | none => false

/-- The order of paths: by their components. -/
private def before : List String → List String → Bool
  | [], _ => true
  | _ :: _, [] => false
  | a :: as, b :: bs => if a == b then before as bs else decide (a < b)

/-- The paths of the scripts to load from a directory, sorted. -/
def scriptsBelow (settings : Settings) (directory : String) (files : List (List String)) :
    List String :=
  let scripts := files.filter fun names =>
    names.getLast?.any isScriptName && settings.takes (String.intercalate "/" names)
  (scripts.mergeSort before).map (Location.below directory)

/-- The paths of the scripts of a page that is no document. -/
def collect (files : FileAccess m) (settings : Settings) (path : String) :
    m (Except LoadError (List String)) := do
  match ← files.kind? path with
  | some .file =>
    return .ok (if (Location.fileName? path).any isScriptName then [path] else [])
  | some .directory =>
    match ← files.walk (fun name => !isSkipped name) path with
    | .ok found => return .ok (scriptsBelow settings path found)
    | .error (directory, e) => return .error (.directory directory e)
  | none => return .ok []

/-- Loads scripts one after another. Of several files with one name the first counts. -/
def loadScripts (files : FileAccess m) (loaded : List ScriptSource) :
    List String → m (Except LoadError (List ScriptSource))
  | [] => return .ok loaded
  | path :: rest => do
    match ← files.readText path with
    | .error e => return .error (.file path e)
    | .ok source =>
      let name := (Location.fileName? path).getD path
      if loaded.any (·.name == name) then loadScripts files loaded rest
      else loadScripts files (loaded ++ [⟨name, source⟩]) rest

def resourceOf (s : ScriptSource) : PageResource :=
  ⟨s.name, ContentType.script, Text.encode s.source⟩

def finish (files : FileAccess m) (page : String) (document : List PageResource)
    (paths : List String) : m (Except LoadError LoadedPage) := do
  return (← loadScripts files [] paths).map fun scripts =>
    ⟨page, scripts, document ++ scripts.map resourceOf⟩

/-- Loads the page that a path leads to: a document with the scripts that it refers to, a directory of
    scripts, or one script. -/
def load (files : FileAccess m) (settings : Settings) (path : String) :
    m (Except LoadError LoadedPage) := do
  let name := Location.fileName? path
  if (← files.isFile path) && name.any isDocumentName then
    match ← files.read path with
    | .error e => return .error (.file path e)
    | .ok html =>
      let base := Location.parent path
      finish files path [⟨name.getD path, "text/html", html⟩]
        ((Html.scriptSources (Text.decodeLossy html)).map (Location.join base))
  else
    match ← collect files settings path with
    | .error e => return .error e
    | .ok paths => finish files path [] paths

/-- Analyses all scripts of a page. -/
def analyse (page : LoadedPage) (settings : Settings) : PageAnalysis :=
  ((PageAnalysis.empty page.page settings.withAnonymous).populate page.scripts).all

end LoadedPage
end PageProbe
