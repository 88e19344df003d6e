import PageProbe.Files.Access

namespace PageProbe

open Text (Bytes)

inductive Entry where
  | file (content : Bytes)
  | directory (entries : List (String × Entry))
  | link (target : String)
deriving Repr, Inhabited

namespace Entry

def lookup? (name : String) : Entry → Option Entry
  | directory entries => entries.lookup name
  | _ => none

/-- The entry that some names lead to, without following links. -/
def at? (entry : Entry) : List String → Option Entry
  | [] => some entry
  | name :: rest => (entry.lookup? name).bind (·.at? rest)

/-- A directory with one entry more, in place of an entry of the same name. -/
private def put (name : String) (entry : Entry) : List (String × Entry) → List (String × Entry)
  | [] => [(name, entry)]
  | (n, e) :: rest => if n = name then (name, entry) :: rest else (n, e) :: put name entry rest

/-- Adds an entry at a path; the directories on the way are made. -/
def insert (entry : Entry) : List String → Entry → Entry
  | [], _ => entry
  | name :: rest, here =>
    let entries := match here with
      | directory entries => entries
      | _ => []
    directory (put name (insert entry rest ((entries.lookup name).getD (directory []))) entries)

mutual
/-- The files of an entry of a directory. -/
def files (enter : String → Bool) (name : String) : Entry → List (List String)
  | file _ => [[name]]
  | directory entries => if enter name then (filesIn enter entries).map (name :: ·) else []
  | link _ => []

def filesIn (enter : String → Bool) : List (String × Entry) → List (List String)
  | [] => []
  | (name, e) :: rest => files enter name e ++ filesIn enter rest
end

end Entry

/-- Files in memory. Links are followed as a file system follows them. -/
structure Disk where
  root : Entry
  /-- The directory from where relative paths are seen, as an absolute path. -/
  home : String
deriving Repr, Inhabited

namespace Disk

/-- The number of links that may be followed on the way to a file. -/
def maxLinks : Nat := 40

/-- Follows components from a place, given by the names that lead to it. -/
private def follow (root : Entry) (links : Nat) (place : List String) :
    List String → Except FileError (List String × Entry)
  | [] =>
    match root.at? place with
    | some e => .ok (place, e)
    | none => .error .missing
  | c :: rest =>
    match root.at? place with
    | some (.directory entries) =>
      if c = "" ∨ c = "." then follow root links place rest
      else if c = ".." then follow root links place.dropLast rest
      else match entries.lookup c with
        | none => .error .missing
        | some (.link target) =>
          match links with
          | 0 => .error .tooManyLinks
          | links + 1 =>
            follow root links (if Location.isAbsolute target then [] else place)
              (Location.components target ++ rest)
        | some _ => follow root links (place ++ [c]) rest
    | _ => .error .notDirectory
termination_by rest => (links, rest.length)

/-- The place that a path leads to, and what is there. -/
def resolve (disk : Disk) (path : String) : Except FileError (List String × Entry) :=
  if path = "" then .error .missing
  else follow disk.root maxLinks [] (Location.components (Location.join disk.home path))

/-- The disk as seen from a directory. -/
def enter (disk : Disk) (path : String) : Except FileError Disk :=
  (disk.resolve path).map fun (place, _) => { disk with home := "/" ++ String.intercalate "/" place }

/-- The operations on the files of a disk. -/
def access (disk : Disk) : FileAccess Id where
  kind? path :=
    match disk.resolve path with
    | .ok (_, .directory _) => some .directory
    | .ok (_, .file _) => some .file
    | _ => none
  read path :=
    match disk.resolve path with
    | .ok (_, .file content) => .ok content
    | .ok _ => .error .isDirectory
    | .error e => .error e
  walk enter path :=
    match disk.resolve path with
    | .ok (_, .directory entries) => .ok (Entry.filesIn enter entries)
    | .ok _ => .error (path, .notDirectory)
    | .error e => .error (path, e)

end Disk
end PageProbe
