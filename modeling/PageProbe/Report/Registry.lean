import PageProbe.Plugin.Registry
import PageProbe.Text.Columns

namespace PageProbe

private def moduleLine (d : ModuleDescriptor) : String :=
  "  " ++ Text.padRight 24 d.moduleId ++ " " ++ Text.padRight 24 d.displayName ++ " " ++
    d.description ++ "\n"

private def rejectionLine (r : Rejection) : String :=
  "  " ++ Text.padRight 24 r.moduleId ++ " " ++ r.reason.message ++ "\n"

/-- The registered modules by kind, and those that were rejected if there are any. -/
def ModuleRegistry.text (r : ModuleRegistry) : String :=
  String.join ([ModuleKind.generation, .detection, .brain].map fun kind =>
    kind.text ++ ":\n" ++ String.join ((r.descriptors kind).map moduleLine)) ++
  (if r.rejected.isEmpty then ""
    else "rejected:\n" ++ String.join (r.rejected.map rejectionLine))

end PageProbe
