import PageProbe.Text.Split
import PageProbe.Text.Word

/-!
A document is not parsed. A reference is looked for behind every `<script`, up to the next `>`: the
last `src` with a quoted value that stands behind a blank.
-/

namespace PageProbe.Html

open Text (isBlank isLetter)

/-- What follows the given letters, case set aside, at the front of a text. -/
def afterLetters : List Char → List Char → Option (List Char)
  | [], cs => some cs
  | l :: ls, c :: cs => if isLetter l c then afterLetters ls cs else none
  | _ :: _, [] => none

def isQuote (c : Char) : Bool := c == '"' || c == '\x27'

/-- A value in quotes of either kind, which hold at least one character, and what follows it. -/
def quoted : List Char → Option (List Char × List Char)
  | q :: cs =>
    let value := cs.takeWhile fun c => !isQuote c
    if isQuote q && !value.isEmpty then
      match cs.dropWhile fun c => !isQuote c with
      | _ :: rest => some (value, rest)
      | [] => none
    else none
  | [] => none

/-- The value of a `src` behind a blank at the front of a text. -/
def sourceHere : List Char → Option (List Char × List Char)
  | c :: cs =>
    if isBlank c then
      match afterLetters ['s', 'r', 'c'] cs with
      | some rest =>
        match rest.dropWhile isBlank with
        | '=' :: rest => quoted (rest.dropWhile isBlank)
        | _ => none
      | none => none
    else none
  | [] => none

/-- The last `src` that starts before the next `>`. -/
def lastSource : List Char → Option (List Char × List Char)
  | [] => none
  | c :: cs => if c == '>' then none else (lastSource cs).or (sourceHere (c :: cs))

/-- The values of all references, found in at most `fuel` steps. Behind a reference the search goes on
    after its closing quote. -/
def references : Nat → List Char → List (List Char)
  | 0, _ => []
  | _, [] => []
  | fuel + 1, c :: cs =>
    let found := if c == '<' then
        (afterLetters ['s', 'c', 'r', 'i', 'p', 't'] cs).bind lastSource
      else none
    match found with
    | some (value, rest) => value :: references fuel rest
    | none => references fuel cs

/-- Whether one text stands somewhere in another. -/
def hasInside (part : List Char) (cs : List Char) : Bool :=
  match cs with
  | [] => part.isEmpty
  | c :: rest => part.isPrefixOf (c :: rest) || hasInside part rest

/-- A script of another host is told by its scheme or by two slashes in front. -/
def isRemote (src : List Char) : Bool :=
  hasInside [':', '/', '/'] src || ['/', '/'].isPrefixOf src

/-- The paths of the scripts of a document in their order. Scripts of other hosts are left out, and
    queries and fragments are cut off. -/
def scriptSources (html : String) : List String :=
  let cs := html.toList
  ((references cs.length cs).filter fun src => !isRemote src).map fun src =>
    String.ofList (Text.upTo (fun c => c == '?' || c == '#') src)

end PageProbe.Html
