import TimingExplorer.Toml.Parser
import TimingExplorer.Text.Digit

/-!
Blanks, comments, strings and keys of TOML.
-/

namespace TimingExplorer.Toml

open Toml.Parser Text

def isBlankSign (c : Char) : Bool := c = ' ' || c = '\t'

/-- A character that may stand in a comment or, quotes and backslashes apart, in a string. -/
def isPrintable (c : Char) : Bool := c = '\t' || (0x20 ≤ c.toNat && c.toNat ≠ 0x7f)

def blanks : Parser Unit := do
  let _ ← run isBlankSign

def newline : Parser Unit := exactly "\n" <|> exactly "\r\n"

def comment : Parser Unit := do
  exactly "#"
  let _ ← run isPrintable

/-- What may follow a complete line. -/
def lineEnd : Parser Unit := do
  blanks
  let _ ← optional comment
  newline <|> atEnd

/-- Blanks, line ends and comments between the items of an array. -/
def gap : Parser Unit := do
  let _ ← many (blanks *> ((comment *> newline) <|> newline))
  blanks

/-- A character by its number, written with exactly so many digits. -/
def numbered (digits : Nat) : Parser Char := fun cs => do
  let ds ← (cs.take digits).mapM hexDigit?
  let code := ds.foldl (fun n d => 16 * n + d) 0
  if ds.length = digits ∧ code.isValidChar then
    some (Char.ofNat code, cs.drop digits)
  else none

/-- What a backslash stands for together with what follows it. -/
def escape : Parser Char := do
  exactly "\\"
  match ← one fun _ => true with
  | 'b' => return '\x08'
  | 'f' => return '\x0c'
  | 'n' => return '\n'
  | 'r' => return '\r'
  | 't' => return '\t'
  | '"' => return '"'
  | '\\' => return '\\'
  | 'u' => numbered 4
  | 'U' => numbered 8
  | _ => fail

def isBasic (c : Char) : Bool := isPrintable c && c ≠ '"' && c ≠ '\\'

def isLiteral (c : Char) : Bool := isPrintable c && c ≠ '\''

/-- Between single quotes every character stands for itself. -/
def literalString : Parser String := do
  exactly "'"
  let body ← run isLiteral
  exactly "'"
  return String.ofList body

def basicString : Parser String := do
  exactly "\""
  let body ← many (one isBasic <|> escape)
  exactly "\""
  return String.ofList body

/-- Fewer than three quotes in a row belong to a text of several lines. -/
def innerQuotes (quote : Char) : Parser (List Char) := do
  let quotes ← run (· = quote)
  if quotes.length < 3 then return quotes else fail

/-- Three quotes end a text of several lines; up to two more before them belong to it. -/
def closingQuotes (quote : Char) : Parser (List Char) := fun cs =>
  let count := (cs.takeWhile (· = quote)).length
  if count < 3 then none
  else
    let inner := min (count - 3) 2
    some (List.replicate inner quote, cs.drop (inner + 3))

/-- A line end inside a text is one character, however it is written. -/
def innerNewline : Parser (List Char) := do
  newline
  return ['\n']

/-- A backslash at the end of a line removes all blanks and line ends up to the next character. -/
def joinedLines : Parser (List Char) := do
  exactly "\\"
  blanks
  newline
  let _ ← many (newline <|> (do let _ ← one isBlankSign))
  return []

def multilineBasicString : Parser String := do
  exactly "\"\"\""
  let _ ← optional newline
  let body ← many (do
    match ← peek? with
    | some '"' => innerQuotes '"'
    | some '\\' => joinedLines <|> (do return [← escape])
    | some c => if isBasic c then return [← one isBasic] else innerNewline
    | none => fail)
  let quotes ← closingQuotes '"'
  return String.ofList (body.flatten ++ quotes)

def multilineLiteralString : Parser String := do
  exactly "'''"
  let _ ← optional newline
  let body ← many (do
    match ← peek? with
    | some '\'' => innerQuotes '\''
    | some c => if isLiteral c then return [← one isLiteral] else innerNewline
    | none => fail)
  let quotes ← closingQuotes '\''
  return String.ofList (body.flatten ++ quotes)

def string : Parser String :=
  multilineBasicString <|> basicString <|> multilineLiteralString <|> literalString

def isBareKey (c : Char) : Bool := c.isAlphanum || c = '_' || c = '-'

def bareKey : Parser String := do
  let name ← run isBareKey
  if name.isEmpty then fail else return String.ofList name

def simpleKey : Parser String := basicString <|> literalString <|> bareKey

/-- A key has fewer parts than this. -/
def keyPartLimit : Nat := 80

/-- One or more parts between points, blanks around each. -/
def key : Parser (List String) := do
  let parts ← sepBy1 (blanks *> simpleKey <* blanks) (exactly ".")
  if parts.length < keyPartLimit then return parts else fail

end TimingExplorer.Toml
