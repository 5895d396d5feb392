import TimingExplorer.Json.Token

/-!
From JSON text to the document tree. The tokens are taken one at a time; arrays and objects that are
still open wait on a stack.
-/

namespace TimingExplorer.Json

open Document

/-- An array or object that is still open, its parts last one first. An object is sound as long as
every name was text; its current name stands apart. -/
inductive Open where
  | array (items : List Value)
  | object (fields : List (String × Value)) (sound : Bool) (name : Option String)

/-- What may come next. -/
inductive Expects where
  | value
  | valueOrClose
  | name
  | nameOrClose
  | colon
  | commaOrClose
  | nothing (document : Value)

structure Reader where
  stack : List Open := []
  expects : Expects := .value

namespace Reader

/-- Puts a finished value where it belongs. -/
def put (stack : List Open) (v : Value) : Reader :=
  match stack with
  | [] => { stack := [], expects := .nothing v }
  | .array items :: rest => { stack := .array (v :: items) :: rest, expects := .commaOrClose }
  | .object fields sound (some name) :: rest =>
    { stack := .object ((name, v) :: fields) sound none :: rest, expects := .commaOrClose }
  | .object fields _ none :: rest =>
    { stack := .object fields false none :: rest, expects := .commaOrClose }

/-- A token that begins or is a value. -/
def beginValue? (r : Reader) : Token → Option Reader
  | .openObject => some { stack := .object [] true none :: r.stack, expects := .nameOrClose }
  | .openArray => some { stack := .array [] :: r.stack, expects := .valueOrClose }
  | .string (some text) => some (put r.stack (.string text))
  | .string none => some (put r.stack .unreadable)
  | .scalar v => some (put r.stack v)
  | _ => none

/-- A token that ends the innermost array or object. -/
def close? (r : Reader) (token : Token) : Option Reader :=
  match r.stack, token with
  | .array items :: rest, .closeArray => some (put rest (.array items.reverse))
  | .object fields sound _ :: rest, .closeObject =>
    some (put rest (if sound then .object fields.reverse else .unreadable))
  | _, _ => none

def beginName? (r : Reader) (token : Token) : Option Reader :=
  match r.stack, token with
  | .object fields sound _ :: rest, .string name =>
    some { stack := .object fields sound name :: rest, expects := .colon }
  | _, _ => none

def afterComma? (r : Reader) : Option Reader :=
  match r.stack with
  | .array _ :: _ => some { r with expects := .value }
  | .object .. :: _ => some { r with expects := .name }
  | [] => none

def step (r : Reader) (token : Token) : Option Reader :=
  match r.expects with
  | .value => r.beginValue? token
  | .valueOrClose => (r.close? token).or (r.beginValue? token)
  | .name => r.beginName? token
  | .nameOrClose => (r.close? token).or (r.beginName? token)
  | .colon =>
    match token with
    | .colon => some { r with expects := .value }
    | _ => none
  | .commaOrClose =>
    match token with
    | .comma => r.afterComma?
    | token => r.close? token
  | .nothing _ => none

def document? (r : Reader) : Option Value :=
  match r.expects with
  | .nothing document => some document
  | _ => none

end Reader

/-- The document that a text holds, alone but for spaces around its tokens. -/
def read? (text : String) : Option Value := do
  let tokens ← Token.scan? text
  let reader ← tokens.foldlM Reader.step {}
  reader.document?

end TimingExplorer.Json
