import PageProbe.Config.Settings

namespace PageProbe

private def Runner.text (r : Runner) : String := r.program ++ " " ++ String.intercalate " " r.args

/-- The settings in lines, and where they are from. -/
def Settings.text (s : Settings) : String :=
  String.join ([
    "Configuration:",
    "  Source: " ++ s.source.getD "defaults (no config file found)",
    "",
    "Fuzzing:",
    "  batch_size: " ++ Number.natural s.batchSize,
    "  tuple_timeout_ms: " ++ Number.natural s.tupleTimeout,
    "  brain: " ++ s.brain,
    "  detector: " ++ s.detector,
    "  seed: " ++ Number.natural s.seed,
    "  chunk_size: " ++ Number.natural s.chunkSize,
    "  runner: " ++ (s.runner.map Runner.text).getD "none",
    "",
    "Analysis:",
    "  index_anonymous_callbacks: " ++ (if s.withAnonymous then "true" else "false"),
    "  include: " ++ (if s.includes.isSome then "custom" else "all .js files")].map (· ++ "\n"))

end PageProbe
