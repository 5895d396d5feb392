/-!
Parsers over the characters that are left of a text. A parser that fails takes nothing, and a
repetition ends at the first turn that fails.
-/

namespace TimingExplorer.Toml

abbrev Parser := StateT (List Char) Option

namespace Parser

variable {α β : Type}

def fail : Parser α := fun _ => none

def ofOption (a : Option α) : Parser α := fun cs => a.map (·, cs)

/-- The next character, which stays where it is. -/
def peek? : Parser (Option Char) := fun cs => some (cs.head?, cs)

/-- Takes one character of a class. -/
def one (test : Char → Bool) : Parser Char
  | [] => none
  | c :: cs => if test c then some (c, cs) else none

/-- Takes one character of a class if there is one. -/
def skip (test : Char → Bool) : Parser Unit
  | [] => some ((), [])
  | c :: cs => if test c then some ((), cs) else some ((), c :: cs)

/-- Takes exactly this text. -/
def exactly (text : String) : Parser Unit := fun cs =>
  if text.toList.isPrefixOf cs then some ((), cs.drop text.length) else none

/-- Takes all characters of a class at the front, perhaps none. -/
def run (test : Char → Bool) : Parser (List Char) := fun cs =>
  some (cs.takeWhile test, cs.dropWhile test)

/-- At most `bound` turns. -/
def repeatUpTo (p : Parser α) : Nat → Parser (List α)
  | 0 => pure []
  | bound + 1 => fun cs =>
    match p cs with
    | none => some ([], cs)
    | some (a, rest) => (repeatUpTo p bound rest).map fun (as, rest) => (a :: as, rest)

/-- As many turns as succeed, for a parser that takes at least one character whenever it succeeds:
the length of the text bounds their number. -/
def many (p : Parser α) : Parser (List α) := fun cs => repeatUpTo p cs.length cs

/-- One or more, with separators between them; a separator is taken only before another turn. -/
def sepBy1 (p : Parser α) (separator : Parser β) : Parser (List α) := do
  let first ← p
  let others ← many (separator *> p)
  return first :: others

/-- Ends only at the end of the text. -/
def atEnd : Parser Unit
  | [] => some ((), [])
  | _ => none

end Parser

end TimingExplorer.Toml
