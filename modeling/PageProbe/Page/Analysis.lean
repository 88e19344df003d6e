import PageProbe.Cause
import PageProbe.Tree.Declarations
import PageProbe.Tree.Resolution

namespace PageProbe

/-- A script of a page. Its name is the last part of its address. -/
structure ScriptSource where
  name : String
  source : String
deriving DecidableEq, Repr, Inhabited

inductive AnalysisError where
  | unparsable (file : String)
  | unindexable (file : String) (error : IndexError)
deriving DecidableEq, Repr, Inhabited

namespace IndexError

def message : IndexError → String
  | .extendArity line count =>
    "extend call at line " ++ Number.natural line ++ " has " ++ Number.natural count ++
      " arguments; object roots need 1 or 2"

end IndexError

namespace AnalysisError

def causes : AnalysisError → List Cause
  | .unparsable file => [.words ("Failed to parse script: " ++ file), .script]
  | .unindexable file error =>
    [.words ("failed to index declarations in " ++ file), .words error.message]

end AnalysisError

/-- What the analysis of a script found. -/
structure AnalysisReport where
  file : String
  functions : Nat
  calls : Nat
  resolution : ResolutionStats
  diagnostics : List Diagnostic
deriving DecidableEq, Repr, Inhabited

open Json in
def AnalysisReport.write (r : AnalysisReport) : Document :=
  .object [
    ("file", .string r.file), ("functions", .ofNat r.functions), ("calls", .ofNat r.calls),
    ("resolution", r.resolution.write), ("diagnostics", .array (r.diagnostics.map Diagnostic.write))]

/-- Puts the declarations of a parsed script into the tree, in place of an earlier root for the same
    file, and records and resolves the calls of the script. -/
def FunctionTree.analyseProgram (tree : FunctionTree) (script : ScriptSource) (program : Script.Program)
    (withAnonymous : Bool) : Except AnalysisError (FunctionTree × AnalysisReport) :=
  match Discovery.ofProgram program script.name script.source withAnonymous with
  | .error e => .error (.unindexable script.name e)
  | .ok found =>
    let calls := program.calls script.source
    let (tree, stats) := (tree.upsertRoot found.root).resolveCalls script.name calls
    .ok (tree, {
      file := script.name, functions := found.root.walk.length - 1, calls := calls.length,
      resolution := stats, diagnostics := found.diagnostics })

/-- Analyses a script. -/
def FunctionTree.analyse (tree : FunctionTree) (script : ScriptSource) (withAnonymous : Bool) :
    Except AnalysisError (FunctionTree × AnalysisReport) :=
  match Script.parse? script.source with
  | none => .error (.unparsable script.name)
  | some program => tree.analyseProgram script program withAnonymous

/-- A script that could not be analysed. -/
structure AnalysisFailure where
  file : String
  error : AnalysisError
deriving DecidableEq, Repr, Inhabited

/-- The tree of a page and the scripts that wait to be analysed. -/
structure PageAnalysis where
  tree : FunctionTree
  /-- The scripts that wait, oldest first. -/
  queue : List ScriptSource
  /-- The names of the scripts that had their turn. -/
  attempted : List String
  withAnonymous : Bool
  reports : List AnalysisReport
  failures : List AnalysisFailure
  finished : Bool
deriving Inhabited

namespace PageAnalysis

def empty (page : String) (withAnonymous : Bool) : PageAnalysis :=
  { tree := FunctionTree.empty page, queue := [], attempted := [], withAnonymous := withAnonymous,
    reports := [], failures := [], finished := true }

/-- Whether a script had its turn, with or without success. -/
def isAnalysed (p : PageAnalysis) (file : String) : Bool := p.attempted.contains file

def pending (p : PageAnalysis) : Nat := p.queue.length

/-- Queues the scripts that neither had their turn nor wait for it. -/
def populate (p : PageAnalysis) (scripts : List ScriptSource) : PageAnalysis :=
  let fresh := scripts.filter fun s =>
    !p.isAnalysed s.name && !p.queue.any (fun q => q.name == s.name)
  if fresh.isEmpty then p else { p with queue := p.queue ++ fresh, finished := false }

/-- Analyses the script that waits longest, if there is one. -/
def next (p : PageAnalysis) : PageAnalysis × Option (Except AnalysisError AnalysisReport) :=
  match p.queue with
  | [] => (p, none)
  | script :: rest =>
    let p := { p with
      queue := rest, attempted := p.attempted ++ [script.name],
      finished := p.finished || rest.isEmpty }
    match p.tree.analyse script p.withAnonymous with
    | .ok (tree, report) =>
      ({ p with tree := tree, reports := p.reports ++ [report] }, some (.ok report))
    | .error e =>
      ({ p with failures := p.failures ++ [⟨script.name, e⟩] }, some (.error e))

/-- Analyses `n` scripts. -/
def advance : Nat → PageAnalysis → PageAnalysis
  | 0, p => p
  | n + 1, p => advance n p.next.1

/-- Analyses all scripts that wait. -/
def all (p : PageAnalysis) : PageAnalysis := advance p.queue.length p

end PageAnalysis
end PageProbe
