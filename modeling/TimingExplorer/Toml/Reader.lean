import TimingExplorer.Toml.Scalar
import TimingExplorer.Toml.Table

/-!
From TOML text to the document tree.
-/

namespace TimingExplorer.Toml

open Toml.Parser Document

/-- So many arrays and inline tables may lie within each other. -/
def nestingLimit : Nat := 79

/-- The items of an array; a comma may follow the last one. -/
def arrayItems (item : Parser Value) : Parser (List Value) := do
  exactly "["
  let items ← optional (sepBy1 (gap *> item <* gap) (exactly ","))
  if items.isSome then
    let _ ← optional (exactly ",")
  gap
  exactly "]"
  return items.getD []

/-- A key, the equals sign and a value. -/
def pair (item : Parser Value) : Parser (List String × String × Value) := do
  let parts ← key
  exactly "="
  blanks
  let v ← item
  blanks
  let name ← ofOption parts.getLast?
  return (parts.dropLast, name, v)

/-- A table on one line; no comma follows its last pair. -/
def inlineTable (item : Parser Value) : Parser Value := do
  exactly "\x7b"
  let pairs ← optional (sepBy1 (pair item) (exactly ","))
  blanks
  exactly "\x7d"
  let entries ← ofOption ((pairs.getD []).foldlM
    (fun entries (path, name, v) => Entries.addPair entries path name v) [])
  return .object (toFields entries)

/-- A value with at most `depth` arrays and inline tables within each other. -/
def value : Nat → Parser Value
  | 0 => scalar
  | depth + 1 =>
    scalar <|> (do return .array (← arrayItems (value depth))) <|> inlineTable (value depth)

def pairLine : Parser Statement := do
  let (path, name, v) ← pair (value nestingLimit)
  lineEnd
  return .pair path name v

def tableLine : Parser Statement := do
  exactly "["
  let parts ← key
  exactly "]"
  lineEnd
  return .table parts.dropLast (← ofOption parts.getLast?)

def elementLine : Parser Statement := do
  exactly "[["
  let parts ← key
  exactly "]]"
  lineEnd
  return .element parts.dropLast (← ofOption parts.getLast?)

/-- One line; a line without a statement is not the end of the text. -/
def line : Parser (Option Statement) := do
  blanks
  (some <$> (elementLine <|> tableLine <|> pairLine))
    <|> ((comment *> (newline <|> atEnd)) *> pure none)
    <|> (newline *> pure none)

/-- All lines up to the end of the text. A byte-order mark may stand in front. -/
def document : Parser (List Statement) := do
  skip (· = '\uFEFF')
  let lines ← many line
  blanks
  atEnd
  return lines.filterMap id

/-- The document that a text holds. -/
def read? (text : String) : Option Value := do
  let (statements, _) ← document text.toList
  tableOf? statements

end TimingExplorer.Toml
