import PageProbe.Text.Bytes
import PageProbe.Text.Split
import PageProbe.Text.Word

namespace PageProbe

open Text (Bytes)

structure PageResource where
  uri : String
  contentType : String
  body : Bytes
deriving DecidableEq, Repr, Inhabited

namespace ContentType

/-- The media type of plain scripts. -/
def script : String := "application/javascript"

/-- The media types of scripts. -/
def scripts : List String :=
  [script, "text/javascript", "application/x-javascript", "application/ecmascript"]

/-- The media type in front of the parameters, in lower case. -/
def mediaType (contentType : String) : String :=
  String.ofList (((Text.trim (String.ofList (Text.upTo (· == ';') contentType.toList))).toList).map
    Char.toLower)

def isScript (contentType : String) : Bool := scripts.contains (mediaType contentType)

end ContentType

/-- The last part of the path of an address, without query and fragment. -/
def scriptName (uri : String) : String :=
  String.ofList (Text.lastPiece (· == '/')
    (Text.upTo (fun c => c == '?' || c == '#') uri.toList))

end PageProbe
