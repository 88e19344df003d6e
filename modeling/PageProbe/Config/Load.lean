import PageProbe.Config.Settings

namespace PageProbe

open Json

inductive ConfigError where
  | unreadable (path : String) (error : FileError)
  | malformed (path : String)
  | invalid (path : String) (fault : ConfigFault)
  | packageUnreadable (path : String) (error : FileError)
  | packageMalformed (path : String)
  | packageConfig (path : String) (mismatch : Option Mismatch)
  | packageInvalid (path : String) (fault : ConfigFault)
  | fault (fault : ConfigFault)
deriving DecidableEq, Repr, Inhabited

def ConfigError.causes : ConfigError → List Cause
  | unreadable path e => [.words ("failed to read config file: " ++ path), .system e]
  | malformed path => [.words ("failed to parse config file: " ++ path), .json none]
  | invalid path f => .words ("invalid config in: " ++ path) :: f.causes
  | packageUnreadable path e => [.words ("failed to read " ++ path), .system e]
  | packageMalformed path => [.words ("failed to parse " ++ path), .json none]
  | packageConfig path m => [.words ("invalid pagefuzz config in " ++ path), .json m]
  | packageInvalid path f => .words ("invalid pagefuzz config in " ++ path) :: f.causes
  | fault f => f.causes

namespace Config

variable {m : Type → Type} [Monad m]

/-- The configuration that a text spells. -/
private def ofText (path text : String) : Except ConfigError Config :=
  match decode.ofText text with
  | none => .error (.malformed path)
  | some c =>
    match c.check with
    | .error f => .error (.invalid path f)
    | .ok () => .ok c

def load (files : FileAccess m) (path : String) : m (Except ConfigError Config) := do
  match ← files.readText path with
  | .error e => return .error (.unreadable path e)
  | .ok text => return ofText path text

/-- The configuration inside the text of a package file, if there is one. -/
private def ofPackageText (path text : String) : Except ConfigError (Option Config) :=
  match Decoder.value.ofText text with
  | none => .error (.packageMalformed path)
  | some v =>
    match v.member? "pagefuzz" with
    | none => .ok none
    | some w =>
      match decode.unbounded (Document.ofValue w) with
      | none => .error (.packageConfig path (form w))
      | some c =>
        match c.check with
        | .error f => .error (.packageInvalid path f)
        | .ok () => .ok (some c)

private def loadPackage (files : FileAccess m) (path : String) :
    m (Except ConfigError (Option Config)) := do
  match ← files.readText path with
  | .error e => return .error (.packageUnreadable path e)
  | .ok text => return ofPackageText path text

/-- The configuration that is found in a directory, and the path of its file. -/
def discover (files : FileAccess m) (directory : String) :
    m (Except ConfigError (Option (Config × String))) := do
  let own := Location.join directory ".pagefuzzrc.json"
  if ← files.pathExists own then
    return (← load files own).map fun c => some (c, own)
  let plain := Location.join directory "pagefuzz.config.json"
  if ← files.pathExists plain then
    return (← load files plain).map fun c => some (c, plain)
  let package := Location.join directory "package.json"
  if ← files.pathExists package then
    return (← loadPackage files package).map fun c => c.map fun c => (c, package)
  return .ok none

/-- The settings for a directory. A file that is named is used in place of what would be found. -/
def settings (files : FileAccess m) (directory : String) (explicit : Option String) :
    m (Except ConfigError Settings) := do
  let found ← match explicit with
    | some path => do pure ((← load files path).map fun c => some (c, path))
    | none => discover files directory
  return do
    let found ← found
    match ((found.map (·.1)).getD blank).resolve with
    | .error f => .error (.fault f)
    | .ok s => .ok { s with source := found.map (·.2) }

end Config
end PageProbe
