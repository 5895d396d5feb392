import TimingExplorer.Config
import TimingExplorer.Text.Blank
import TimingExplorer.Toml.Reader

/-!
Loading settings from a project's configuration file. Form comes before content: a document that
cannot be read is refused as such, whatever its values say.
-/

namespace TimingExplorer

open Document

/-- A rule that a configuration can break. -/
inductive ConfigFault where
  | noPaths
  | blankCorner
  | blankFilter
  deriving DecidableEq, Repr

/-- Why a configuration was not loaded. -/
inductive ConfigError where
  /-- The file is missing, cannot be read or is not text. -/
  | unreadable
  /-- The text is no TOML document, or a known section or field has the wrong type. -/
  | malformed
  | invalid (fault : ConfigFault)
  deriving DecidableEq, Repr

def ConfigFault.message : ConfigFault → String
  | noPaths => "validation error: analysis.max_path_count must be positive"
  | blankCorner => "validation error: analysis.corner must not be empty"
  | blankFilter => "validation error: logging.filter must not be empty"

namespace Config

/-- The file of a project directory that holds its configuration. -/
def fileName : String := "vantage.toml"

/-- The first rule that a configuration breaks. -/
def fault? (c : Config) : Option ConfigFault :=
  if c.analysis.maxPathCount = 0 then some .noPaths
  else if c.analysis.corner.any Text.isBlank then some .blankCorner
  else if Text.isBlank c.logging.filter then some .blankFilter
  else none

/-- Accepts a configuration that breaks no rule. -/
def validate (c : Config) : Except ConfigError Config :=
  match c.fault? with
  | some fault => .error (.invalid fault)
  | none => .ok c

/-- The configuration that a document describes. -/
def ofDocument (v : Value) : Except ConfigError Config :=
  match decode .toml v with
  | none => .error .malformed
  | some c => c.validate

/-- The configuration that a text describes. -/
def ofText (text : String) : Except ConfigError Config :=
  match Toml.read? text with
  | none => .error .malformed
  | some v => ofDocument v

/-- The configuration in a project's file: none where there is no file to read, and otherwise its
bytes, which are to be UTF-8. -/
def ofFile (content : Option ByteArray) : Except ConfigError Config :=
  match content.bind String.fromUTF8? with
  | none => .error .unreadable
  | some text => ofText text

end Config

end TimingExplorer
