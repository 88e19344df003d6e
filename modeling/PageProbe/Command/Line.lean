import PageProbe.Command.Options
import PageProbe.Plugin.Message
import PageProbe.Text.Split
import PageProbe.Text.Word

namespace PageProbe

/-- The form in which a command prints its answer. -/
inductive OutputFormat where
  | text
  | json
deriving DecidableEq, Repr, Inhabited

structure InjectOptions where
  path : String
  function : String
  /-- The arguments as a JSON text; without them it is the baseline. -/
  args : Option String
  dependencyArgs : List String
  config : Option String
deriving DecidableEq, Repr, Inhabited

/-- Options of a run. What is left out is taken from the configuration. -/
structure FuzzOptions where
  path : String
  function : String
  generators : List String
  detector : Option String
  brain : Option String
  batchSize : Option Nat
  /-- The time for one execution, in milliseconds. -/
  timeout : Option Nat
  dependencyArgs : List String
  runner : Option String
  runnerArgs : List String
  format : OutputFormat
  config : Option String
deriving DecidableEq, Repr, Inhabited

inductive Command where
  /-- Prints the functions of a page. -/
  | analyze (path : String) (format : OutputFormat) (config : Option String)
  /-- Prints the script of a function as it is rewritten for one tuple. -/
  | inject (options : InjectOptions)
  /-- Prints the modules that pass their checks. -/
  | plugins (format : OutputFormat)
  | fuzz (options : FuzzOptions)
  | validateConfig (path : Option String)
  | showConfig (path : Option String)
deriving DecidableEq, Repr, Inhabited

namespace Command

private def format : OptionRule := .single "format" (.choice ["text", "json"])

private def config : OptionRule := .single "config" .path

private def function : OptionRule := .single "function" .text

private def analyzeRules : OptionRules := ⟨[format, config], true⟩

private def injectRules : OptionRules :=
  ⟨[function, .single "args" .text, .repeated "dep-args", config], true⟩

private def pluginsRules : OptionRules := ⟨[format], false⟩

private def fuzzRules : OptionRules := {
  options := [
    function, .repeated "generator", .single "detector" .text, .single "brain" .text,
    .single "batch-size" .number, .single "timeout-ms" .number, .repeated "dep-args",
    .single "runner" .text, ⟨"runner-arg", .text, true, true⟩, format, config]
  takesPath := true }

private def configRules : OptionRules := ⟨[.single "path" .path], false⟩

private def formatOf (g : Given) : OutputFormat :=
  if g.value? "format" = some "json" then .json else .text

/-- Something that has to be given. -/
private def needed (value : Option α) : Except Stop α :=
  match value with
  | some a => .ok a
  | none => .error .misuse

private def readAnalyze (args : List String) : Except Stop Command := do
  let g ← Given.nothing.take analyzeRules args
  return .analyze (← needed g.path) (formatOf g) (g.value? "config")

private def readInject (args : List String) : Except Stop Command := do
  let g ← Given.nothing.take injectRules args
  return .inject {
    path := ← needed g.path, function := ← needed (g.value? "function")
    args := g.value? "args", dependencyArgs := g.values "dep-args", config := g.value? "config" }

private def readPlugins (args : List String) : Except Stop Command := do
  return .plugins (formatOf (← Given.nothing.take pluginsRules args))

private def readFuzz (args : List String) : Except Stop Command := do
  let g ← Given.nothing.take fuzzRules args
  return .fuzz {
    path := ← needed g.path, function := ← needed (g.value? "function")
    generators := g.values "generator", detector := g.value? "detector"
    brain := g.value? "brain", batchSize := (g.value? "batch-size").bind number?
    timeout := (g.value? "timeout-ms").bind number?
    dependencyArgs := g.values "dep-args", runner := g.value? "runner"
    runnerArgs := g.values "runner-arg", format := formatOf g, config := g.value? "config" }

private def readPath (command : Option String → Command) (args : List String) :
    Except Stop Command := do
  return command ((← Given.nothing.take configRules args).value? "path")

/-- A group of commands: what its names stand for, given the arguments behind a name. -/
private abbrev Group := List (String × (List String → Except Stop Command))

/-- Takes the letters behind a single dash where a command is still to come. At the top one of them
    asks for the version. -/
private def skipLetters (isTop wasVerbose : Bool) : List Char → Except Stop Bool
  | [] => .ok wasVerbose
  | 'v' :: cs => if wasVerbose then .error .misuse else skipLetters isTop true cs
  | 'h' :: _ => .error .help
  | 'V' :: _ => .error (if isTop then .help else .misuse)
  | _ => .error .misuse

/-- Reads the name of a command and what comes in front of it. -/
private def readGroup (group : Group) (isTop : Bool)
    (help : List String → Stop) (wasVerbose : Bool) : List String → Except Stop Command
  | [] => .error .misuse
  | arg :: rest =>
    match Argument.ofText arg with
    | .plain "help" => .error (help rest)
    | .plain name =>
      match group.lookup name with
      | some read => read rest
      | none => .error .misuse
    | .lastDashes => .error .misuse
    | .letters cs =>
      (skipLetters isTop wasVerbose cs).bind fun v => readGroup group isTop help v rest
    | .long "help" none => .error .help
    | .long "version" none => .error (if isTop then .help else .misuse)
    | .long "verbose" none =>
      if wasVerbose then .error .misuse else readGroup group isTop help true rest
    | .long _ _ => .error .misuse

private def configGroup : Group :=
  [("validate", readPath .validateConfig), ("show", readPath .showConfig)]

/-- Help can be asked for a command by its name. -/
private def helpOnConfig : List String → Stop
  | [] => .help
  | [name] => if name == "help" || (configGroup.lookup name).isSome then .help else .misuse
  | _ => .misuse

private def readConfig (args : List String) : Except Stop Command :=
  readGroup configGroup false helpOnConfig false args

private def group : Group := [
  ("analyze", readAnalyze), ("inject", readInject), ("plugins", readPlugins), ("fuzz", readFuzz),
  ("config", readConfig)]

private def helpOn : List String → Stop
  | [] => .help
  | "config" :: names => helpOnConfig names
  | [name] => if name == "help" || (group.lookup name).isSome then .help else .misuse
  | _ => .misuse

/-- The command that a command line gives. -/
def ofArguments (args : List String) : Except Stop Command := readGroup group true helpOn false args

/-- The arguments that a text lists between commas. Blanks around them do not count, and empty ones are
    left out. -/
def splitArguments (text : String) : List String :=
  ((Text.split (· == ',') text.toList).map fun cs => Text.trim (String.ofList cs)).filter
    (!·.isEmpty)

end Command
end PageProbe
