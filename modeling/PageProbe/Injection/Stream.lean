import PageProbe.Injection.Injector

namespace PageProbe

open Text (Bytes)

namespace PageResource

/-- The pieces of what is left of a body from an offset on, each of at most `size + 1` bytes. -/
def chunksFrom (r : PageResource) (size offset : Nat) (rest : Bytes) : List Chunk :=
  match rest with
  | [] => []
  | b :: bs =>
    ⟨r.uri, r.contentType, offset, b :: bs.take size, (bs.drop size).isEmpty⟩ ::
      chunksFrom r size (offset + (size + 1)) (bs.drop size)
termination_by rest.length
decreasing_by simp only [List.length_cons, List.length_drop]; omega

/-- The body in pieces of a size; a size of zero counts as one. -/
def chunks (r : PageResource) (size : Nat) : List Chunk := r.chunksFrom (size - 1) 0 r.body

end PageResource

namespace Injector

/-- Passes pieces one after another, and joins what comes out. -/
def interceptAll (i : Injector) : List Chunk → Injector × Bytes
  | [] => (i, [])
  | c :: cs =>
    let (i, changed) := i.intercept c
    let (i, rest) := interceptAll i cs
    (i, pieceOf c changed ++ rest)

/-- The body of a resource as it reaches a page that asks for it in pieces of a size. -/
def stream (i : Injector) (r : PageResource) (size : Nat) : Injector × Bytes :=
  i.interceptAll (r.chunks size)

end Injector

inductive PreviewError where
  | target (error : TargetError)
  /-- The script that is given ends before the injection point. -/
  | outside (path : String)
deriving DecidableEq, Repr, Inhabited

def PreviewError.message : PreviewError → String
  | target error => error.message
  | outside path => "injection point of " ++ path ++ " lies outside the given source"

/-- A script as a page would get it when the given tuple is the next. -/
def previewInjection (tree : FunctionTree) (path : String) (dependencyArgs : List (List String))
    (tuple : Tuple) (source : String) : Except PreviewError String :=
  match Injector.empty.select tree path dependencyArgs with
  | .error e => .error (.target e)
  | .ok i =>
    let script := ((tree.find? path).map Leaf.scriptName).getD ""
    let whole : Chunk := ⟨script, ContentType.script, 0, Text.encode source, true⟩
    match (((i.load [tuple]).activate).intercept whole).2 with
    | some bytes => .ok (Text.decodeLossy bytes)
    | none => .error (.outside path)

end PageProbe
