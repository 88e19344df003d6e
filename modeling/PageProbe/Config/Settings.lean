import PageProbe.Cause
import PageProbe.Glob.Matching
import PageProbe.Json.Decoder
import PageProbe.Number.Notation
import PageProbe.Text.Word

namespace PageProbe

open Json

/-- The program that runs one execution. -/
structure Runner where
  program : String
  args : List String
deriving DecidableEq, Repr, Inhabited

structure Config where
  /-- Patterns of scripts to take; none takes all. -/
  includes : List String
  /-- Patterns of scripts to leave out; none stands for the usual ones. -/
  excludes : List String
  batchSize : Option Nat
  tupleTimeout : Option Nat
  brain : Option String
  detector : Option String
  chunkSize : Option Nat
  seed : Option Nat
  withAnonymous : Option Bool
  runner : Option Runner
deriving DecidableEq, Repr, Inhabited

/-- A configuration with everything filled in. -/
structure Settings where
  /-- The patterns of scripts to take, or nothing to take all. -/
  includes : Option (List (List Glob.Piece))
  excludes : List (List Glob.Piece)
  batchSize : Nat
  /-- The time for an execution, in milliseconds. -/
  tupleTimeout : Nat
  brain : String
  detector : String
  chunkSize : Nat
  seed : Nat
  withAnonymous : Bool
  runner : Option Runner
  /-- The path of the file that the configuration is from. -/
  source : Option String
deriving Repr, Inhabited

/-- Why a configuration makes no sense. -/
inductive ConfigFault where
  | batchSize (got : Nat)
  | zero (name : String)
  | blank (name : String)
  | badPattern (list pattern : String) (fault : Glob.PatternFault)
deriving DecidableEq, Repr, Inhabited

/-- The largest number of values that may be asked of a generator. -/
def maxBatchSize : Nat := 10000

def ConfigFault.causes : ConfigFault → List Cause
  | batchSize got =>
    [.words ("batch_size must be between 1 and " ++ Number.natural maxBatchSize ++ " (got " ++
      Number.natural got ++ ")")]
  | zero name => [.words (name ++ " must be positive (got 0)")]
  | blank name => [.words (name ++ " must not be empty")]
  | badPattern list pattern fault =>
    [.words ("invalid " ++ list ++ " pattern: " ++ pattern), .pattern pattern fault]

namespace Runner

def write (r : Runner) : Document :=
  .object [("program", .string r.program), ("args", .strings r.args)]

def decode : Decoder Runner := fun room d => do
  match ← Record.fields ["program", "args"] true room d with
  | [program, args] =>
    return ⟨← program.required Decoder.string, ← args.orElse [] (Decoder.array Decoder.string)⟩
  | _ => none

/-- What a value has to be in order to be decoded. -/
def form : Form :=
  .record "RunnerConfig" [⟨"program", true, .string⟩, ⟨"args", false, .array .string⟩]

end Runner

namespace Config

/-- The configuration that says nothing. -/
def blank : Config := ⟨[], [], none, none, none, none, none, none, none, none⟩

def write (c : Config) : Document :=
  .object [
    ("include", .strings c.includes), ("exclude", .strings c.excludes),
    ("batch_size", Document.nullable .ofNat c.batchSize),
    ("tuple_timeout_ms", Document.nullable .ofNat c.tupleTimeout),
    ("brain", Document.nullable .string c.brain),
    ("detector", Document.nullable .string c.detector),
    ("chunk_size", Document.nullable .ofNat c.chunkSize),
    ("seed", Document.nullable .ofNat c.seed),
    ("index_anonymous_callbacks", Document.nullable .bool c.withAnonymous),
    ("runner", Document.nullable Runner.write c.runner)]

/-- Members of other names are refused. -/
def decode : Decoder Config := fun room d => do
  let texts (f : Field) := f.orElse [] (Decoder.array Decoder.string)
  let number (f : Field) := f.orElse none (Decoder.option Decoder.nat)
  let text (f : Field) := f.orElse none (Decoder.option Decoder.string)
  match ← Record.fields ["include", "exclude", "batch_size", "tuple_timeout_ms", "brain", "detector",
      "chunk_size", "seed", "index_anonymous_callbacks", "runner"] true room d with
  | [includes, excludes, batchSize, tupleTimeout, brain, detector, chunkSize, seed, anonymous,
      runner] =>
    return {
      includes := ← texts includes
      excludes := ← texts excludes
      batchSize := ← number batchSize
      tupleTimeout := ← number tupleTimeout
      brain := ← text brain
      detector := ← text detector
      chunkSize := ← number chunkSize
      seed := ← number seed
      withAnonymous := ← anonymous.orElse none (Decoder.option Decoder.bool)
      runner := ← runner.orElse none (Decoder.option Runner.decode) }
  | _ => none

/-- What a value has to be in order to be decoded. -/
def form : Form :=
  .record "PagefuzzConfig" [
    ⟨"include", false, .array .string⟩, ⟨"exclude", false, .array .string⟩,
    ⟨"batch_size", false, .option (.natural "usize")⟩,
    ⟨"tuple_timeout_ms", false, .option (.natural "u64")⟩,
    ⟨"brain", false, .option .string⟩, ⟨"detector", false, .option .string⟩,
    ⟨"chunk_size", false, .option (.natural "usize")⟩, ⟨"seed", false, .option (.natural "u64")⟩,
    ⟨"index_anonymous_callbacks", false, .option .bool⟩, ⟨"runner", false, .option Runner.form⟩]

private def parsePattern (list pattern : String) : Except ConfigFault (List Glob.Piece) :=
  (Glob.parse pattern).mapError (.badPattern list pattern)

/-- The patterns of scripts that are left out unless a configuration says otherwise. -/
def usualExcludes : List String :=
  ["**/*.test.js", "**/*.spec.js", "**/node_modules/**", "**/__tests__/**"]

private def checkPositive (name : String) (value : Option Nat) : Except ConfigFault Unit :=
  if value = some 0 then .error (.zero name) else .ok ()

private def checkText (name : String) (value : Option String) : Except ConfigFault Unit :=
  if value.any fun text => (Text.trim text).isEmpty then .error (.blank name) else .ok ()

private def checkBatchSize (value : Option Nat) : Except ConfigFault Unit :=
  match value with
  | some n => if n = 0 ∨ n > maxBatchSize then .error (.batchSize n) else .ok ()
  | none => .ok ()

/-- Checks everything but the patterns. -/
private def checkValues (c : Config) : Except ConfigFault Unit := do
  checkBatchSize c.batchSize
  checkPositive "tuple_timeout_ms" c.tupleTimeout
  checkPositive "chunk_size" c.chunkSize
  checkText "brain" c.brain
  checkText "detector" c.detector
  checkText "runner.program" (c.runner.map (·.program))

/-- The first thing in a configuration that makes no sense. -/
def check (c : Config) : Except ConfigFault Unit := do
  c.checkValues
  let _ ← c.includes.mapM (parsePattern "include")
  let _ ← c.excludes.mapM (parsePattern "exclude")

/-- The brain that is used unless another one is asked for. -/
def usualBrain : String := "noBrainModule"

/-- The detector that is used unless another one is asked for. -/
def usualDetector : String := "specialCharDetecModule"

/-- The number of values that are asked of a generator unless another one is given. -/
def usualBatchSize : Nat := 10

/-- The settings of a configuration. -/
def resolve (c : Config) : Except ConfigFault Settings := do
  c.checkValues
  let includes ← c.includes.mapM (parsePattern "include")
  let excludes ← c.excludes.mapM (parsePattern "exclude")
  let usual ← usualExcludes.mapM (parsePattern "exclude")
  return {
    includes := if c.includes.isEmpty then none else some includes
    excludes := if c.excludes.isEmpty then usual else excludes
    batchSize := c.batchSize.getD usualBatchSize
    tupleTimeout := c.tupleTimeout.getD 10000
    brain := c.brain.getD usualBrain
    detector := c.detector.getD usualDetector
    chunkSize := c.chunkSize.getD 8192
    seed := c.seed.getD 0
    withAnonymous := c.withAnonymous.getD false
    runner := c.runner
    source := none }

end Config

namespace Settings

/-- Whether a script is to be taken, by its path from the page's directory. -/
def takes (s : Settings) (path : String) : Bool :=
  let bytes := Text.encode path
  !s.excludes.any (Glob.isMatch · bytes) &&
    (s.includes.map fun patterns => patterns.any (Glob.isMatch · bytes)).getD true

end Settings
end PageProbe
