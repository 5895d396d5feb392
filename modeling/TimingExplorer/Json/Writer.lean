import TimingExplorer.Document.Value

/-!
From the document tree to JSON text, without a space between tokens. How a double is printed is left
open.
-/

namespace TimingExplorer.Json

open Document

/-- A character inside a string. Controls that have no letter of their own are written by number. -/
def escaped (c : Char) : List Char :=
  match c with
  | '"' => ['\\', '"']
  | '\\' => ['\\', '\\']
  | '\x08' => ['\\', 'b']
  | '\x0c' => ['\\', 'f']
  | '\n' => ['\\', 'n']
  | '\r' => ['\\', 'r']
  | '\t' => ['\\', 't']
  | c =>
    if c.toNat < 0x20 then
      ['\\', 'u', '0', '0', Nat.digitChar (c.toNat / 16), Nat.digitChar (c.toNat % 16)]
    else [c]

def quote (text : String) : List Char := '"' :: text.toList.flatMap escaped ++ ['"']

def wholeNumber (n : Int) : List Char :=
  if n < 0 then '-' :: Nat.toDigits 10 n.natAbs else Nat.toDigits 10 n.natAbs

variable (printReal : Double → String)

/- An item, and a field, is written with the comma before it; the first one then loses its comma. -/
mutual

/-- Dates and what no type can hold are not values of this notation; null stands for them. -/
def chars : Value → List Char
  | .bool true => ['t', 'r', 'u', 'e']
  | .bool false => ['f', 'a', 'l', 's', 'e']
  | .integer n => wholeNumber n
  | .real x => (printReal x).toList
  | .string text => quote text
  | .array items => '[' :: (itemChars items).tail ++ [']']
  | .object fields => '\x7b' :: (fieldChars fields).tail ++ ['\x7d']
  | .null | .dateTime | .unreadable => ['n', 'u', 'l', 'l']

def itemChars : List Value → List Char
  | [] => []
  | v :: rest => ',' :: chars v ++ itemChars rest

def fieldChars : List (String × Value) → List Char
  | [] => []
  | (name, v) :: rest => ',' :: quote name ++ ':' :: chars v ++ fieldChars rest

end

def render (v : Value) : String := String.ofList (chars printReal v)

end TimingExplorer.Json
