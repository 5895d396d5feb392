import TimingExplorer.Query
import TimingExplorer.Text.Quoted

/-!
Services, sources and settings as shown to a reader: a name and the parts between braces. What has
no form of its own is left out, for which two points stand.
-/

namespace TimingExplorer

/-- Analysis settings as shown to a reader. -/
def AnalysisConfig.describe (c : AnalysisConfig) : String :=
  let corner := match c.corner with
    | none => "None"
    | some name => "Some(" ++ Text.quoted name ++ ")"
  s!"AnalysisConfig \x7b corner: {corner}, use_max: {c.useMax}, " ++
    s!"max_path_count: {c.maxPathCount}, include_unconstrained: {c.includeUnconstrained}, " ++
    s!"include_capture_paths: {c.includeCapturePaths}, clock_expanded: {c.clockExpanded} \x7d"

/-- Cone settings as shown to a reader. -/
def ConeConfig.describe (c : ConeConfig) : String :=
  let direction := match c.direction with
    | .fanin => "Fanin"
    | .fanout => "Fanout"
    | .both => "Both"
  s!"ConeConfig \x7b direction: {direction} \x7d"

/-- A service as shown to a reader: which sources are bound, and its settings. -/
def QueryService.describe (s : QueryService) : String :=
  s!"PathQueryService \x7b has_engine: {s.engine.isSome}, has_database: {s.database.isSome}, " ++
    s!"analysis: {s.analysis.describe}, cone: {s.cone.describe} \x7d"

/-- A pair of sources as shown to a reader. -/
def Context.describe (_ : Context) : String := "EngineContext \x7b .. \x7d"

/-- The builder as shown to a reader. -/
def ConeBuilder.describe (b : ConeBuilder) : String :=
  s!"ConeBuilder \x7b has_database: {b.database.isSome}, .. \x7d"

end TimingExplorer
