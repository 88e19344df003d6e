import PageProbe.Glob.Pattern

namespace PageProbe.Glob

open Text (Bytes)

private def slash : UInt8 := 0x2F

private def bytesOf (c : Char) : Bytes := String.utf8EncodeChar c

/-- Whether a byte lies in a range. A character of several bytes stands for its bytes one by one, and
    the range goes from the last byte of its first character to the first byte of its last one. -/
private def inRange (b : UInt8) (range : Char × Char) : Bool :=
  let first := bytesOf range.1
  let last := bytesOf range.2
  if range.1 = range.2 then first.contains b
  else first.dropLast.contains b || (last.drop 1).contains b ||
    (decide (first.getLast?.getD 0 ≤ b) && decide (b ≤ last.headD 0))

/-- Whether what follows some bytes of the path is accepted. -/
private def afterAny (accept : Bytes → Bool) : Bytes → Bool
  | [] => accept []
  | b :: bs => accept (b :: bs) || afterAny accept bs

/-- Whether what follows some slash of the path is accepted. -/
private def afterSlash (accept : Bytes → Bool) : Bytes → Bool
  | [] => false
  | b :: bs => (b == slash && accept bs) || afterSlash accept bs

private def afterText (accept : Bytes → Bool) (text path : Bytes) : Bool :=
  match text, path with
  | [], path => accept path
  | _ :: _, [] => false
  | t :: ts, b :: bs => t == b && afterText accept ts bs

mutual
/-- Whether a piece can take the front of a path so that the rest is accepted. -/
def Piece.take (accept : Bytes → Bool) : Piece → Bytes → Bool
  | .literal c, path => afterText accept (bytesOf c) path
  | .any, _ :: bs => accept bs
  | .any, [] => false
  | .many, path => afterAny accept path
  | .oneOf negated ranges, b :: bs => (ranges.any (inRange b) != negated) && accept bs
  | .oneOf _ _, [] => false
  | .leading, path => accept path || afterSlash accept path
  | .trailing, b :: bs => b == slash && afterAny accept bs
  | .trailing, [] => false
  | .between, b :: bs => b == slash && (accept bs || afterSlash accept bs)
  | .between, [] => false
  | .either [], path => accept path
  | .either (branch :: branches), path => takeAny accept (branch :: branches) path

def takeAll (accept : Bytes → Bool) : List Piece → Bytes → Bool
  | [], path => accept path
  | p :: ps, path => p.take (takeAll accept ps) path

def takeAny (accept : Bytes → Bool) : List (List Piece) → Bytes → Bool
  | [], _ => false
  | b :: bs, path => takeAll accept b path || takeAny accept bs path
end

/-- Whether a pattern matches a path. A lone `**` matches every path. -/
def isMatch (pattern : List Piece) (path : Bytes) : Bool :=
  match pattern with
  | [.leading] => true
  | pattern => takeAll List.isEmpty pattern path

end PageProbe.Glob
