import PageProbe.Command.Run
import PageProbe.Random.Uuid

namespace PageProbe.Program

/-- A path as the system sees it. -/
def entryAt (path : String) : IO.FS.DirEntry := ⟨".", path⟩

def faultOf : IO.Error → FileError
  | .noFileOrDirectory .. => .missing
  | .inappropriateType _ 20 _ => .notDirectory
  | .inappropriateType _ 21 _ => .isDirectory
  | e => .other (toString e)

def attempt (act : IO α) : IO (Except FileError α) := do
  try
    return .ok (← act)
  catch e => return .error (faultOf e)

def kind? (path : String) : IO (Option FileKind) := do
  match ← attempt (entryAt path).path.metadata with
  | .ok found => return if found.type == .dir then some .directory else some .file
  | .error _ => return none

def read (path : String) : IO (Except FileError Text.Bytes) :=
  attempt do return (← IO.FS.readBinFile (entryAt path).path).toList

/-- The files below a directory, behind the components that lead to it. -/
partial def walk (enter : String → Bool) (names : List String) (path : String) :
    IO (Except (String × FileError) (List (List String))) := do
  match ← attempt (entryAt path).path.readDir with
  | .error e => return .error (path, e)
  | .ok entries =>
    let mut found := []
    for e in entries do
      let below := Location.join path e.fileName
      match ← attempt e.path.symlinkMetadata with
      | .error fault => return .error (below, fault)
      | .ok data =>
        match data.type with
        | .dir =>
          if enter e.fileName then
            match ← walk enter (names ++ [e.fileName]) below with
            | .error fault => return .error fault
            | .ok more => found := found ++ more
        | .symlink => pure ()
        | _ => found := found ++ [names ++ [e.fileName]]
    return .ok found

def files : FileAccess IO := ⟨kind?, read, fun enter path => walk enter [] path⟩

/-- No program can be started from here, so that the contexts of a run fail to start. -/
def programs : Programs := fun _ => none

/-- A number of 64 bits that nobody can foresee. -/
def freshSeed : IO UInt64 := do
  return (← IO.getRandomBytes 8).foldl (fun n b => n * 256 + b.toUInt64) 0

end PageProbe.Program

open PageProbe in
def main (args : List String) : IO UInt32 := do
  let directory ← IO.currentDir
  let seed ← Program.freshSeed
  let answer ← Command.runLine
    ⟨Program.files, directory.toString, ⟨Random.Uuid.ofSeed seed, 0⟩, Program.programs⟩ args
  IO.print answer.output
  for line in answer.messages do
    IO.eprintln line
  return UInt32.ofNat answer.code
