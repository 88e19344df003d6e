import PageProbe.Json.Printer
import PageProbe.Plugin.Wire
import PageProbe.Text.Word

namespace PageProbe

open Json

/-- What an execution reports about the call of the tuple with the same id. -/
structure ExecutionReport where
  uniqueId : String
  returnedValue : Value
  serializedDom : Option String
  callStack : Option (List Value)
  /-- The text of what was thrown. -/
  error : Option String
deriving Repr, Inhabited

namespace ExecutionReport

/-- The error of an execution that has not reported. -/
def timeoutError : String := "timeout"

/-- What stands for the report of an execution that has not reported. -/
def timedOut (uuid : String) : ExecutionReport :=
  { uniqueId := uuid, returnedValue := .null, serializedDom := none, callStack := none,
    error := some timeoutError }

def response (r : ExecutionReport) : ExecutionResponse :=
  { html := r.serializedDom, callStack := r.callStack, value := r.returnedValue, error := r.error }

def write (r : ExecutionReport) : Document :=
  .object [
    ("uniqueId", .string r.uniqueId), ("returnedValue", Document.ofValue r.returnedValue),
    ("serializedDOM", Document.nullable .string r.serializedDom),
    ("callStack", Document.nullable (fun vs => .array (vs.map Document.ofValue)) r.callStack),
    ("error", Document.nullable .string r.error)]

/-- An error is a text, or a flag that only tells whether there is one. -/
def decodeError : Decoder (Option String)
  | _, .null => some none
  | _, .bool false => some none
  | _, .bool true => some (some "error")
  | _, .string s => some (some s)
  | _, _ => none

def decode : Decoder ExecutionReport := fun room d => do
  match ← Record.fields ["uniqueId", "returnedValue", "serializedDOM", "callStack", "error"]
      false room d with
  | [uniqueId, returned, dom, callStack, error] =>
    return {
      uniqueId := ← uniqueId.required Decoder.string
      returnedValue := ← returned.orElse .null Decoder.value
      serializedDom := ← dom.orElse none (Decoder.option Decoder.string)
      callStack := ← callStack.orElse none (Decoder.option (Decoder.array Decoder.value))
      error := ← error.orElse none decodeError }
  | _ => none

/-- The report inside a posted message. The class of the message may be left out and is not looked
    at. -/
def decodePosted : Decoder ExecutionReport := fun room d => do
  match ← Record.fields ["class", "payload"] false room d with
  | [className, payload] =>
    let _ ← className.orElse none (Decoder.option Decoder.string)
    payload.required decode
  | _ => none

/-- The report of a line, with or without the message around it. -/
def ofLine? (line : String) : Option ExecutionReport :=
  let text := Text.trim line
  (decodePosted.ofText text).or (decode.ofText text)

end ExecutionReport
end PageProbe
