import PageProbe.Json.Decoder
import PageProbe.Number.Notation
import PageProbe.Plugin.Message

/-!
Requests and the bodies of responses name their variant in one member and hold its contents in
another. Contents that come before the name, and all members of a response, are taken in as they are
before their type is known. Decimal names of positions are only known as text then, so that only an
empty generation map can be read that way.
-/

namespace PageProbe

open Json

namespace GenerationMap

def write (m : GenerationMap) : Document :=
  .object (m.map fun e => (Number.natural e.1, .string e.2))

/-- A position as the name of a member: a decimal number of 64 bits without leading zeros. -/
def slot? (name : String) : Option Nat :=
  match name.toList with
  | [] => none
  | '0' :: _ :: _ => none
  | ds =>
    if ds.all Char.isDigit then
      let n := ds.foldl (fun n c => n * 10 + (c.toNat - '0'.toNat)) 0
      if n < Nat.pow 2 64 then some n else none
    else none

def decode : Decoder GenerationMap
  | room + 1, .object members => do
    let entries ← members.mapM fun (name, d) => do
      return ((← slot? name), (← Decoder.string room d))
    return GenerationMap.ofList entries
  | _, _ => none

/-- A map that was taken in before its type was known. -/
def decodeHeld : Decoder GenerationMap
  | _, .object [] => some []
  | _, _ => none

end GenerationMap

namespace Tuple

def write (t : Tuple) : Document :=
  .object [("uuid", .string t.uuid), ("args", Document.nullable Document.values t.args)]

def decode : Decoder Tuple := fun room d => do
  match ← Record.fields ["uuid", "args"] false room d with
  | [uuid, args] => return ⟨← uuid.required Decoder.string, ← args.nullable Decoder.values⟩
  | _ => none

end Tuple

namespace ExecutionResponse

def write (r : ExecutionResponse) : Document :=
  .object [
    ("HTML", Document.nullable .string r.html),
    ("callStack", Document.nullable Document.values r.callStack),
    ("value", Document.ofValue r.value),
    ("error", Document.nullable .string r.error)]

def decode : Decoder ExecutionResponse := fun room d => do
  match ← Record.fields ["HTML", "callStack", "value", "error"] false room d with
  | [html, callStack, value, error] =>
    return {
      html := ← html.orElse none (Decoder.option Decoder.string)
      callStack := ← callStack.orElse none (Decoder.option Decoder.values)
      value := ← value.orElse .null Decoder.value
      error := ← error.orElse none (Decoder.option Decoder.string) }
  | _ => none

end ExecutionResponse

namespace Verdict

def write (v : Verdict) : Document :=
  .object [("result", .bool v.result), ("info", .string v.info)]

def decode : Decoder Verdict := fun room d => do
  match ← Record.fields ["result", "info"] false room d with
  | [result, info] => return ⟨← result.required Decoder.bool, ← info.required Decoder.string⟩
  | _ => none

end Verdict

namespace FuzzRecord

def write (r : FuzzRecord) : Document :=
  .object <|
    [("uuid", .string r.uuid), ("args", Document.nullable Document.values r.args),
      ("response", r.response.write)] ++
    Document.optional "detection" Verdict.write r.detection

def decode : Decoder FuzzRecord := fun room d => do
  match ← Record.fields ["uuid", "args", "response", "detection"] false room d with
  | [uuid, args, response, detection] =>
    return {
      uuid := ← uuid.required Decoder.string
      args := ← args.nullable Decoder.values
      response := ← response.required ExecutionResponse.decode
      detection := ← detection.orElse none (Decoder.option Verdict.decode) }
  | _ => none

def writeAll (records : List FuzzRecord) : Document := .array (records.map write)

def decodeAll : Decoder (List FuzzRecord) := Decoder.array decode

end FuzzRecord

namespace GenerateRequest

def write (r : GenerateRequest) : Document :=
  .object [("id", .ofNat r.id), ("batchSize", .ofNat r.batchSize), ("args", Document.values r.args)]

def decode : Decoder GenerateRequest := fun room d => do
  match ← Record.fields ["id", "batchSize", "args"] false room d with
  | [id, batchSize, args] =>
    return ⟨← id.required Decoder.nat, ← batchSize.required Decoder.nat,
      ← args.orElse [] Decoder.values⟩
  | _ => none

end GenerateRequest

namespace GenerationRequest

def write (r : GenerationRequest) : Document :=
  .object [
    ("batchSize", .ofNat r.batchSize),
    ("previousBatch", Document.nullable FuzzRecord.writeAll r.previousBatch)]

def decode : Decoder GenerationRequest := fun room d => do
  match ← Record.fields ["batchSize", "previousBatch"] false room d with
  | [batchSize, previous] =>
    return ⟨← batchSize.required Decoder.nat,
      ← previous.orElse none (Decoder.option FuzzRecord.decodeAll)⟩
  | _ => none

end GenerationRequest

/-- A variant by its name and its contents. In an object the two members may come in any order. The
    contents are `held` when they came first, or when the whole object was taken in before. -/
structure Tagged where
  tag : Document
  held : Bool
  room : Nat
  contents : Document

def Tagged.open (tag content : String) (held : Bool) : Decoder Tagged
  | room + 1, .object members =>
    match members.filter fun m => m.1 == tag || m.1 == content with
    | [(n, a), (m, b)] =>
      if n == tag && m == content then some ⟨a, held, room, b⟩
      else if n == content && m == tag then
        -- What is held has to be readable, whatever its type turns out to be.
        (a.toValue? room).map fun _ => ⟨b, true, room, a⟩
      else none
    | _ => none
  | room + 1, .array [a, b] => some ⟨a, held, room, b⟩
  | _, _ => none

namespace Request

def write (r : Request) : Document :=
  .object [
    ("command", .string r.command),
    ("payload", match r with
      | .checkIntegrity m => .string m
      | .generate g => g.write
      | .detect batch => FuzzRecord.writeAll batch
      | .handleGeneration g => g.write
      | .initializeBrain m => m.write)]

def decodeContents (command : String) (held : Bool) : Decoder Request := fun room d =>
  match command with
  | "checkIntegrity" => (Decoder.string room d).map .checkIntegrity
  | "generate" => (GenerateRequest.decode room d).map .generate
  | "detect" => (FuzzRecord.decodeAll room d).map .detect
  | "handleGeneration" => (GenerationRequest.decode room d).map .handleGeneration
  | "initializeBrain" =>
    (if held then GenerationMap.decodeHeld room d else GenerationMap.decode room d).map
      .initializeBrain
  | _ => none

def decode : Decoder Request := fun room d => do
  let t ← Tagged.open "command" "payload" false room d
  let command ← Decoder.string room t.tag
  decodeContents command t.held t.room t.contents

end Request

namespace Characteristics

def write (c : Characteristics) : Document :=
  .object [("name", .string c.name), ("description", .string c.description)]

def decode : Decoder Characteristics := fun room d => do
  match ← Record.fields ["name", "description"] false room d with
  | [name, description] =>
    return ⟨← name.required Decoder.string, ← description.required Decoder.string⟩
  | _ => none

end Characteristics

namespace Checks

def write (c : Checks) : Document := .object (c.map fun e => (e.1, .bool e.2))

def decode : Decoder Checks
  | room + 1, .object members => do
    let entries ← members.mapM fun (name, d) => do return (name, (← Decoder.bool room d))
    return Checks.ofList entries
  | _, _ => none

end Checks

namespace IntegrityReport

def write (r : IntegrityReport) : Document :=
  .object [
    ("fileName", .string r.fileName), ("check", r.check.write),
    ("caract", r.characteristics.write)]

def decode : Decoder IntegrityReport := fun room d => do
  match ← Record.fields ["fileName", "check", "caract"] false room d with
  | [fileName, check, characteristics] =>
    return ⟨← fileName.required Decoder.string, ← check.required Checks.decode,
      ← characteristics.required Characteristics.decode⟩
  | _ => none

end IntegrityReport

namespace GeneratedBatch

def write (g : GeneratedBatch) : Document :=
  .object [("id", .ofNat g.id), ("batch", Document.values g.batch)]

def decode : Decoder GeneratedBatch := fun room d => do
  match ← Record.fields ["id", "batch"] false room d with
  | [id, batch] => return ⟨← id.required Decoder.nat, ← batch.required Decoder.values⟩
  | _ => none

end GeneratedBatch

namespace DebugMessage

def write (m : DebugMessage) : Document :=
  .object [("header", .string m.header), ("content", Document.ofValue m.content)]

def decode : Decoder DebugMessage := fun room d => do
  match ← Record.fields ["header", "content"] false room d with
  | [header, content] =>
    return ⟨← header.required Decoder.string, ← content.orElse .null Decoder.value⟩
  | _ => none

end DebugMessage

namespace ResponseBody

def writeContents : ResponseBody → Document
  | .integrity r => r.write
  | .generated b => b.write
  | .detected records => FuzzRecord.writeAll records
  | .assembled tuples => .array (tuples.map Document.values)
  | .mark started => started.write
  | .debug m => m.write

/-- The name of a variant, or its place among the variants. -/
def className? : Document → Option String
  | .string s => some s
  | .number (.integer (.ofNat n)) =>
    ["integrityCheck", "genModResponse", "detectModResponse", "brainModResponse",
      "intializationMark", "debug"][n]?
  | _ => none

def decodeContents (className : String) : Decoder ResponseBody := fun room d =>
  match className with
  | "integrityCheck" => (IntegrityReport.decode room d).map .integrity
  | "genModResponse" => (GeneratedBatch.decode room d).map .generated
  | "detectModResponse" => (FuzzRecord.decodeAll room d).map .detected
  | "brainModResponse" => (Decoder.array Decoder.values room d).map .assembled
  | "intializationMark" => (GenerationMap.decodeHeld room d).map .mark
  | "debug" => (DebugMessage.decode room d).map .debug
  | _ => none

end ResponseBody

namespace Response

def write (r : Response) : Document :=
  .object [
    ("debug", .bool r.isDebug), ("class", .string r.body.className),
    ("payload", r.body.writeContents)]

/-- Every member but `debug` is taken in before the variant is known, and has to be readable. -/
def decode : Decoder Response
  | room + 1, .object members => do
    let [(_, flag)] := members.filter (fun m => m.1 == "debug") | none
    let isDebug ← Decoder.bool room flag
    let others := members.filter (fun m => m.1 != "debug")
    let _ ← others.mapM fun m => m.2.toValue? room
    let t ← Tagged.open "class" "payload" true (room + 1) (.object others)
    let name ← ResponseBody.className? t.tag
    let body ← ResponseBody.decodeContents name t.room t.contents
    return ⟨isDebug, body⟩
  | _, _ => none

end Response
end PageProbe
