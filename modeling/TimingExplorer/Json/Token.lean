import TimingExplorer.Json.Number

/-!
The tokens of JSON text. One pass over the characters moves a small state: a word and a numeral end
where a character comes that they cannot hold, a string at its quote.
-/

namespace TimingExplorer.Json

open Document Text

inductive Token where
  | openObject
  | closeObject
  | openArray
  | closeArray
  | comma
  | colon
  /-- A string; none if it holds half a surrogate pair. -/
  | string (text : Option String)
  | scalar (v : Value)

namespace Token

/-- Where in a string the reading stands. -/
inductive StringMode where
  | plain
  | escaped
  /-- This many digits of a code unit are still to come after those with the given value. -/
  | unit (missing : Nat) (value : Nat)

/-- A string being read: its characters, last one first, whether all halves of surrogate pairs met
their other half so far, and the first half that waits for its second. -/
structure Text where
  chars : List Char := []
  paired : Bool := true
  waiting : Option Nat := none
  mode : StringMode := .plain

namespace Text

/-- Appends a character that is not half of a pair. -/
def push (t : Text) (c : Char) : Text :=
  { t with
    chars := c :: t.chars, paired := t.paired && t.waiting.isNone, waiting := none, mode := .plain }

/-- Appends a code unit: a second half completes a waiting first half; any other half is alone. -/
def pushUnit (t : Text) (unit : Nat) : Text :=
  if 0xDC00 ≤ unit ∧ unit ≤ 0xDFFF then
    match t.waiting with
    | some first =>
      let code := 0x10000 + (first - 0xD800) * 0x400 + (unit - 0xDC00)
      { t with chars := Char.ofNat code :: t.chars, waiting := none, mode := .plain }
    | none => { t with paired := false, mode := .plain }
  else if 0xD800 ≤ unit ∧ unit ≤ 0xDBFF then
    { t with paired := t.paired && t.waiting.isNone, waiting := some unit, mode := .plain }
  else t.push (Char.ofNat unit)

def finish (t : Text) : Option String :=
  if t.paired && t.waiting.isNone then some (String.ofList t.chars.reverse) else none

end Text

/-- The character that a backslash and this one stand for. -/
def escape? : Char → Option Char
  | '"' => some '"'
  | '\\' => some '\\'
  | '/' => some '/'
  | 'b' => some '\x08'
  | 'f' => some '\x0c'
  | 'n' => some '\n'
  | 'r' => some '\r'
  | 't' => some '\t'
  | _ => none

/-- What is being read; letters and signs stand last one first. -/
inductive Mode where
  | between
  | word (letters : List Char)
  | numeral (signs : List Char)
  | text (t : Text)

structure Scanner where
  mode : Mode := .between
  /-- The tokens read so far, last one first. -/
  tokens : List Token := []

def isSpace (c : Char) : Bool := c = ' ' || c = '\t' || c = '\n' || c = '\r'

def isNumeralSign (c : Char) : Bool :=
  c.isDigit || c = '-' || c = '+' || c = '.' || c = 'e' || c = 'E'

namespace Scanner

def emit (s : Scanner) (token : Token) : Scanner :=
  { mode := .between, tokens := token :: s.tokens }

/-- A character outside words, numerals and strings. -/
def start (s : Scanner) (c : Char) : Option Scanner :=
  match c with
  | '{' => some (s.emit .openObject)
  | '}' => some (s.emit .closeObject)
  | '[' => some (s.emit .openArray)
  | ']' => some (s.emit .closeArray)
  | ',' => some (s.emit .comma)
  | ':' => some (s.emit .colon)
  | '"' => some { s with mode := .text {} }
  | c =>
    if isSpace c then some s
    else if c.isLower then some { s with mode := .word [c] }
    else if c.isDigit || c = '-' then some { s with mode := .numeral [c] }
    else none

/-- Ends a word or a numeral. -/
def flush (s : Scanner) : Option Scanner :=
  match s.mode with
  | .between => some s
  | .word letters =>
    match String.ofList letters.reverse with
    | "null" => some (s.emit (.scalar .null))
    | "true" => some (s.emit (.scalar (.bool true)))
    | "false" => some (s.emit (.scalar (.bool false)))
    | _ => none
  | .numeral signs =>
    (Numeral.ofChars? signs.reverse).map fun n => s.emit (.scalar n.value)
  | .text _ => none

def stepText (s : Scanner) (t : Text) (c : Char) : Option Scanner :=
  match t.mode with
  | .plain =>
    if c = '"' then some (s.emit (.string t.finish))
    else if c = '\\' then some { s with mode := .text { t with mode := .escaped } }
    else if c.toNat < 0x20 then none
    else some { s with mode := .text (t.push c) }
  | .escaped =>
    if c = 'u' then some { s with mode := .text { t with mode := .unit 4 0 } }
    else (escape? c).map fun c => { s with mode := .text (t.push c) }
  | .unit missing value =>
    (hexDigit? c).map fun d =>
      let value := 16 * value + d
      let t :=
        if missing ≤ 1 then t.pushUnit value else { t with mode := .unit (missing - 1) value }
      { s with mode := .text t }

def step (s : Scanner) (c : Char) : Option Scanner :=
  match s.mode with
  | .between => s.start c
  | .word letters =>
    if c.isLower then some { s with mode := .word (c :: letters) } else s.flush.bind (·.start c)
  | .numeral signs =>
    if isNumeralSign c then some { s with mode := .numeral (c :: signs) }
    else s.flush.bind (·.start c)
  | .text t => s.stepText t c

end Scanner

/-- The tokens of a text, if it consists of tokens and spaces. -/
def scan? (text : String) : Option (List Token) := do
  let scanner ← text.toList.foldlM Scanner.step {}
  let scanner ← scanner.flush
  return scanner.tokens.reverse

end Token

end TimingExplorer.Json
