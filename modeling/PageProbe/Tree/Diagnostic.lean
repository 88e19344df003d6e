import PageProbe.Json.Decoder
import PageProbe.Tree.Wire

namespace PageProbe

inductive Severity where
  | warning
  | error
deriving DecidableEq, Repr, Inhabited

inductive DiagnosticKind where
  /-- An object with functions in it that is bound to no name. -/
  | unresolvedObjectRoot
  /-- A function that is assigned to something without a name. -/
  | unsupportedAssignmentTarget
deriving DecidableEq, Repr, Inhabited

structure Diagnostic where
  file : String
  severity : Severity
  kind : DiagnosticKind
  message : String
  range : Span
  line : Nat
deriving DecidableEq, Repr, Inhabited

namespace Severity

def text : Severity → String
  | warning => "warning"
  | error => "error"

def ofText? : String → Option Severity
  | "warning" => some warning
  | "error" => some error
  | _ => none

end Severity

namespace DiagnosticKind

def text : DiagnosticKind → String
  | unresolvedObjectRoot => "unresolved_object_root"
  | unsupportedAssignmentTarget => "unsupported_assignment_target"

def ofText? : String → Option DiagnosticKind
  | "unresolved_object_root" => some unresolvedObjectRoot
  | "unsupported_assignment_target" => some unsupportedAssignmentTarget
  | _ => none

end DiagnosticKind

namespace Diagnostic

open Json

def write (d : Diagnostic) : Document :=
  .object [
    ("file", .string d.file), ("severity", .string d.severity.text), ("kind", .string d.kind.text),
    ("message", .string d.message), ("range", d.range.write), ("line", .ofNat d.line)]

def decode : Decoder Diagnostic := fun room d => do
  match ← Record.fields ["file", "severity", "kind", "message", "range", "line"] false room d with
  | [file, severity, kind, message, range, line] =>
    return {
      file := ← file.required Decoder.string
      severity := ← severity.required (Decoder.variant Severity.ofText?)
      kind := ← kind.required (Decoder.variant DiagnosticKind.ofText?)
      message := ← message.required Decoder.string
      range := ← range.required Span.decode
      line := ← line.required Decoder.nat }
  | _ => none

end Diagnostic
end PageProbe
