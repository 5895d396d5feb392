import TimingExplorer.Document.Decode
import TimingExplorer.Document.Encode

/-!
Settings of a session and how they are written. Every section and every field may be left out and
then has its default.
-/

namespace TimingExplorer

open Document

/-- Settings of path searches and of timing look-ups on pins. -/
structure AnalysisConfig where
  /-- Name of the corner; none stands for the engine's default corner. -/
  corner : Option String := none
  /-- Worst case rather than best case. -/
  useMax : Bool := true
  /-- At most so many paths are reported. -/
  maxPathCount : Nat := 10
  /-- Whether paths without a timing check are reported. -/
  includeUnconstrained : Bool := false
  /-- Whether the capture clock path is reported along with a path. -/
  includeCapturePaths : Bool := false
  /-- Whether every stage of the clock tree is a node of its own. -/
  clockExpanded : Bool := false
  deriving DecidableEq, Repr

/-- Which way a cone goes from its seed. -/
inductive ConeDirection where
  /-- From loads towards drivers. -/
  | fanin
  /-- From drivers towards loads. -/
  | fanout
  /-- Both cones; the fanin side has negative depths. -/
  | both
  deriving DecidableEq, Repr

structure ConeConfig where
  direction : ConeDirection := .both
  deriving DecidableEq, Repr

structure LoggingConfig where
  /-- The directive that selects what is logged. -/
  filter : String := "vantage=info"
  deriving DecidableEq, Repr

structure Config where
  analysis : AnalysisConfig := {}
  cone : ConeConfig := {}
  logging : LoggingConfig := {}
  deriving DecidableEq, Repr

namespace AnalysisConfig

def fieldNames : List String :=
  ["corner", "use_max", "max_path_count", "include_unconstrained", "include_capture_paths",
    "clock_expanded"]

/-- The section that gives these fields; the others have their defaults. -/
def ofFields? (r : Fields) : Option AnalysisConfig := do
  let default : AnalysisConfig := {}
  return {
    corner := ← r.optional "corner" Decoder.string
    useMax := ← r.withDefault "use_max" default.useMax Decoder.bool
    maxPathCount := ← r.withDefault "max_path_count" default.maxPathCount Decoder.count
    includeUnconstrained :=
      ← r.withDefault "include_unconstrained" default.includeUnconstrained Decoder.bool
    includeCapturePaths :=
      ← r.withDefault "include_capture_paths" default.includeCapturePaths Decoder.bool
    clockExpanded := ← r.withDefault "clock_expanded" default.clockExpanded Decoder.bool }

def decode (dialect : Dialect) : Decoder AnalysisConfig := fun v =>
  (Fields.ofValue? dialect fieldNames v).bind ofFields?

def encode (c : AnalysisConfig) : Value :=
  .object [
    ("corner", Encode.nullable .string c.corner),
    ("use_max", .bool c.useMax),
    ("max_path_count", Encode.nat c.maxPathCount),
    ("include_unconstrained", .bool c.includeUnconstrained),
    ("include_capture_paths", .bool c.includeCapturePaths),
    ("clock_expanded", .bool c.clockExpanded)]

end AnalysisConfig

namespace ConeDirection

def choices : List (String × ConeDirection) :=
  [("fanin", fanin), ("fanout", fanout), ("both", both)]

def decode (dialect : Dialect) : Decoder ConeDirection := Decoder.choice dialect choices

def name : ConeDirection → String
  | fanin => "fanin"
  | fanout => "fanout"
  | both => "both"

def encode (d : ConeDirection) : Value := .string d.name

end ConeDirection

namespace ConeConfig

def fieldNames : List String := ["direction"]

def ofFields? (dialect : Dialect) (r : Fields) : Option ConeConfig := do
  let default : ConeConfig := {}
  return {
    direction := ← r.withDefault "direction" default.direction (ConeDirection.decode dialect) }

def decode (dialect : Dialect) : Decoder ConeConfig := fun v =>
  (Fields.ofValue? dialect fieldNames v).bind (ofFields? dialect)

def encode (c : ConeConfig) : Value := .object [("direction", c.direction.encode)]

end ConeConfig

namespace LoggingConfig

def fieldNames : List String := ["filter"]

def ofFields? (r : Fields) : Option LoggingConfig := do
  let default : LoggingConfig := {}
  return { filter := ← r.withDefault "filter" default.filter Decoder.string }

def decode (dialect : Dialect) : Decoder LoggingConfig := fun v =>
  (Fields.ofValue? dialect fieldNames v).bind ofFields?

def encode (c : LoggingConfig) : Value := .object [("filter", .string c.filter)]

end LoggingConfig

namespace Config

def fieldNames : List String := ["analysis", "cone", "logging"]

def ofFields? (dialect : Dialect) (r : Fields) : Option Config := do
  return {
    analysis := ← r.withDefault "analysis" {} (AnalysisConfig.decode dialect)
    cone := ← r.withDefault "cone" {} (ConeConfig.decode dialect)
    logging := ← r.withDefault "logging" {} (LoggingConfig.decode dialect) }

def decode (dialect : Dialect) : Decoder Config := fun v =>
  (Fields.ofValue? dialect fieldNames v).bind (ofFields? dialect)

def encode (c : Config) : Value :=
  .object [
    ("analysis", c.analysis.encode), ("cone", c.cone.encode), ("logging", c.logging.encode)]

end Config

end TimingExplorer
