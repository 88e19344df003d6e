import PageProbe.Json.Decoder
import PageProbe.Tree.Leaf

namespace PageProbe

open Json

def Span.write (s : Span) : Document :=
  .object [("start", .ofNat s.start), ("end", .ofNat s.stop)]

def Span.decode : Decoder Span := fun room d => do
  match ← Record.fields ["start", "end"] false room d with
  | [start, stop] => return ⟨← start.required Decoder.nat, ← stop.required Decoder.nat⟩
  | _ => none

namespace UsedFunction

def write (u : UsedFunction) : Document :=
  .object <|
    [("name", .string u.name), ("range", u.range.write), ("line", .ofNat u.line),
      ("arguments", .strings u.arguments)] ++
    Document.optional "path" .string u.path ++
    [("immediately_invoked", .bool u.immediatelyInvoked)]

def decode : Decoder UsedFunction := fun room d => do
  match ← Record.fields ["name", "range", "line", "arguments", "path", "immediately_invoked"]
      false room d with
  | [name, range, line, arguments, path, invoked] =>
    return {
      name := ← name.required Decoder.string
      range := ← range.required Span.decode
      line := ← line.required Decoder.nat
      arguments := ← arguments.required (Decoder.array Decoder.string)
      path := ← path.orElse none (Decoder.option Decoder.string)
      immediatelyInvoked := ← invoked.orElse false Decoder.bool }
  | _ => none

end UsedFunction

namespace Holder

def write (h : Holder) : Document :=
  .object [("name", .string h.name), ("end_index", .ofNat h.stop)]

def decode : Decoder Holder := fun room d => do
  match ← Record.fields ["name", "end_index"] false room d with
  | [name, stop] => return ⟨← name.required Decoder.string, ← stop.required Decoder.nat⟩
  | _ => none

end Holder

namespace Leaf

/-- The members of a leaf behind its children. -/
def writeRest (leaf : Leaf) : List (String × Document) :=
  [("used_functions", .array (leaf.usedFunctions.map UsedFunction.write))] ++
    Document.optional "from_object" Holder.write leaf.fromObject ++
    (if leaf.functionSource.isEmpty then []
      else [("function_source", .strings leaf.functionSource)]) ++
    Document.optional "declaration_end" .ofNat leaf.declarationEnd ++
    Document.optional "anonymous_end" .ofNat leaf.anonymousEnd

mutual
def write : Leaf → Document
  | leaf@{ children := children, .. } =>
    .object <|
      [("paths", .strings leaf.paths), ("args", .strings leaf.args),
        ("range", leaf.range.write), ("children", .array (writeAll children))] ++
      leaf.writeRest

def writeAll : List Leaf → List Document
  | [] => []
  | c :: cs => write c :: writeAll cs
end

def fieldNames : List String := [
  "paths", "args", "range", "children", "used_functions", "from_object", "function_source",
  "declaration_end", "anonymous_end"]

/-- Decodes a leaf, given a decoder for its children. -/
def decodeWith (child : Decoder Leaf) : Decoder Leaf := fun room d => do
  match ← Record.fields fieldNames false room d with
  | [paths, args, range, children, used, holder, source, declared, anonymous] =>
    return {
      paths := ← paths.required (Decoder.array Decoder.string)
      args := ← args.required (Decoder.array Decoder.string)
      range := ← range.required Span.decode
      children := ← children.orElse [] (Decoder.array child)
      usedFunctions := ← used.orElse [] (Decoder.array UsedFunction.decode)
      fromObject := ← holder.orElse none (Decoder.option Holder.decode)
      functionSource := ← source.orElse [] (Decoder.array Decoder.string)
      declarationEnd := ← declared.orElse none (Decoder.option Decoder.nat)
      anonymousEnd := ← anonymous.orElse none (Decoder.option Decoder.nat) }
  | _ => none

/-- Leaves with at most `n` levels of children. -/
def decodeLevels : Nat → Decoder Leaf
  | 0 => fun _ _ => none
  | n + 1 => decodeWith (decodeLevels n)

/-- Every level of children opens two levels of the document. -/
def decode : Decoder Leaf := fun room d => decodeLevels (room + 1) room d

end Leaf

namespace FunctionTree

def write (tree : FunctionTree) : Document :=
  .object [("page", .string tree.page), ("children", .array (Leaf.writeAll tree.children))]

def decode : Decoder FunctionTree := fun room d => do
  match ← Record.fields ["page", "children"] false room d with
  | [page, children] =>
    return ⟨← page.required Decoder.string, ← children.required (Decoder.array Leaf.decode)⟩
  | _ => none

end FunctionTree
end PageProbe
