import PageProbe.Config.Settings
import PageProbe.Execution.Context
import PageProbe.Json.Printer

namespace PageProbe

open Json
open Text (Bytes)

/-- A line that a program prints, and when: in milliseconds from the moment from which its reports are
    waited for. -/
structure PrintedLine where
  time : Nat
  text : String
deriving DecidableEq, Repr, Inhabited

/-- The programs that can be started, by their names: what each prints, given its arguments and the lines
    that it reads. -/
abbrev Programs := String → Option (List String → List String → List PrintedLine)

/-- A line that tells no report is passed over. -/
def PrintedLine.report? (p : PrintedLine) : Option TimedReport :=
  (ExecutionReport.ofLine? p.text).map fun r => ⟨p.time, r⟩

/-- The line by which a program learns of a resource. -/
def PageResource.servedLine (r : PageResource) (body : Bytes) : String :=
  (Document.object [
    ("uri", .string r.uri), ("contentType", .string r.contentType),
    ("body", .string (Text.decodeLossy body))]).compact

/-- Launches a program for every tuple. It is looked for before the resources are fetched. -/
def Runner.launch (r : Runner) (programs : Programs) (resources : List PageResource) (size : Nat) :
    Launcher Unit where
  launch := fun _ =>
    match programs r.program with
    | none => .done ((), .failed ("failed to start runner " ++ r.program))
    | some run =>
      Fetching.fetchBodies size [] resources fun bodies =>
        let lines := List.zipWith PageResource.servedLine resources bodies
        .done ((), .reporting ((run r.args lines).filterMap PrintedLine.report?))
  teardown := .done

end PageProbe
