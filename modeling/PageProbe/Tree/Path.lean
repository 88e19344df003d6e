import PageProbe.Text.Split

namespace PageProbe.Path

/-- A text cut at every slash. -/
def split (path : List Char) : List (List Char) := Text.split (· == '/') path

/-- What stands between the slashes. In front of the first slash there is an empty segment. -/
def segments (path : String) : List String := (split path.toList).map String.ofList

/-- The path that has the given segments. -/
def join (segments : List String) : String := String.intercalate "/" segments

def last (path : String) : String := (segments path).getLast?.getD path

/-- The number of slashes. -/
def depth (path : String) : Nat := (segments path).length - 1

/-- The first segment behind the leading slashes. -/
def first (path : String) : String :=
  String.ofList ((split (path.toList.dropWhile (· == '/'))).headD [])

/-- The path of the root of a script. -/
def ofScript (file : String) : String := "/" ++ file

/-- The path of what is named `name` inside what has a path. -/
def child (path name : String) : String := path ++ "/" ++ name

end PageProbe.Path
