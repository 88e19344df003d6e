import PageProbe.Execution.Report
import PageProbe.Injection.Stream

namespace PageProbe

open Text (Bytes)

/-- A behaviour that fetches pieces of responses and comes to a result. Each fetch may depend on what the
    earlier ones brought. -/
inductive Fetching (α : Type) where
  | done (result : α)
  /-- Fetches a piece, and goes on with what reaches it. -/
  | fetch (piece : Chunk) (next : Bytes → Fetching α)

namespace Fetching

/-- What a behaviour comes to behind an injector, and the injector afterwards. -/
def run : Fetching α → Injector → Injector × α
  | done result, i => (i, result)
  | fetch piece next, i =>
    let (i, changed) := i.intercept piece
    run (next (Injector.pieceOf piece changed)) i

/-- Fetches pieces one after another, and goes on with what they bring together. -/
def fetchAll (got : Bytes) : List Chunk → (Bytes → Fetching α) → Fetching α
  | [], next => next got
  | c :: cs, next => fetch c fun piece => fetchAll (got ++ piece) cs next

/-- Fetches resources in pieces of a size, and goes on with their bodies as they come. -/
def fetchBodies (size : Nat) (bodies : List Bytes) :
    List PageResource → (List Bytes → Fetching α) → Fetching α
  | [], next => next bodies
  | r :: rest, next =>
    fetchAll [] (r.chunks size) fun body => fetchBodies size (bodies ++ [body]) rest next

end Fetching

/-- A report, and when it comes: in milliseconds from the moment from which it is waited for. -/
structure TimedReport where
  time : Nat
  report : ExecutionReport
deriving Repr, Inhabited

/-- What the launch of a context comes to. -/
inductive Launched where
  /-- The context did not start. -/
  | failed (reason : String)
  /-- The context sends these reports, in this order. -/
  | reporting (reports : List TimedReport)
deriving Repr, Inhabited

/-- The report of a launched context about a tuple: the first one with its id that comes in time. -/
def Launched.reportOf (l : Launched) (uuid : String) (deadline : Nat) : Option ExecutionReport :=
  match l with
  | failed _ => none
  | reporting reports =>
    (reports.find? fun r => r.report.uniqueId == uuid && decide (r.time ≤ deadline)).map (·.report)

/-- Launches contexts, one for each tuple, and tears them down. What it remembers may depend on all that
    its contexts have fetched. -/
structure Launcher (σ : Type) where
  launch : σ → Fetching (σ × Launched)
  /-- What a context still does when it is not waited for any more. One that did not start is not torn
      down. -/
  teardown : σ → Fetching σ

end PageProbe
