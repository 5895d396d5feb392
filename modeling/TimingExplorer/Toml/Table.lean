import TimingExplorer.Document.Value

/-!
How the lines of a TOML document add up to one table. A table can come into being in three ways, by
its own header, on the way to a deeper header, or through the points of a key, and that decides who
may still add to it.
-/

namespace TimingExplorer.Toml

open Document

inductive Origin where
  /-- Written as a header of its own. -/
  | header
  /-- Named only as a part of a deeper header; a header of its own may still come. -/
  | onTheWay
  /-- Made by a key with several parts; only such keys and deeper headers may add to it. -/
  | points
  deriving DecidableEq

inductive Node where
  | value (v : Value)
  | table (origin : Origin) (entries : List (String × Node))
  /-- The tables written under a doubled header, first one first. -/
  | tables (elements : List (List (String × Node)))

abbrev Entries := List (String × Node)

namespace Entries

/-- Puts a node under a name, in the place of the one that stands there. -/
def put (entries : Entries) (name : String) (node : Node) : Entries :=
  if (entries.lookup name).isSome then
    entries.map fun entry => if entry.1 == name then (name, node) else entry
  else entries ++ [(name, node)]

/-- Changes the table that lies at a path, and makes the tables that are missing on the way. Where
a list of tables lies on the way, the path goes on in the last of them. A key with points may not
enter a table that has a header of its own. -/
def descend {α : Type} (byPoints : Bool) (change : Origin → Entries → Option (α × Entries)) :
    List String → Origin → Entries → Option (α × Entries)
  | [], origin, entries => change origin entries
  | name :: path, _, entries =>
    match entries.lookup name with
    | none => do
      let origin := if byPoints then .points else .onTheWay
      let (a, inner) ← descend byPoints change path origin []
      return (a, entries.put name (.table origin inner))
    | some (.value _) => none
    | some (.table origin inner) => do
      if byPoints ∧ origin = .header then none
      let (a, inner) ← descend byPoints change path origin inner
      return (a, entries.put name (.table origin inner))
    | some (.tables elements) => do
      let last ← elements.getLast?
      let (a, last) ← descend byPoints change path .header last
      return (a, entries.put name (.tables (elements.dropLast ++ [last])))

/-- Adds a value under a key. Keys with points add to tables made by points, and single names to
the table at hand; no name is given twice. -/
def addPair (entries : Entries) (path : List String) (name : String) (v : Value) :
    Option Entries := do
  let change (origin : Origin) (entries : Entries) : Option (Unit × Entries) :=
    if (origin = .points ↔ path.isEmpty) ∨ (entries.lookup name).isSome then none
    else some ((), entries.put name (.value v))
  let (_, entries) ← entries.descend true change path .header
  return entries

end Entries

mutual

def Node.toValue : Node → Value
  | .value v => v
  | .table _ entries => .object (toFields entries)
  | .tables elements => .array (toObjects elements)

def toFields : List (String × Node) → List (String × Value)
  | [] => []
  | (name, node) :: rest => (name, node.toValue) :: toFields rest

def toObjects : List (List (String × Node)) → List Value
  | [] => []
  | entries :: rest => .object (toFields entries) :: toObjects rest

end

/-- A line that says something: a key and its value, or the header of a table. -/
inductive Statement where
  | pair (path : List String) (name : String) (v : Value)
  | table (path : List String) (name : String)
  | element (path : List String) (name : String)

/-- Where the table that is being filled belongs. -/
inductive Place where
  | root
  | table (path : List String) (name : String)
  | element (path : List String) (name : String)

/-- A document as far as it has been read: the finished part, and the table being filled. -/
structure Draft where
  root : Entries := []
  place : Place := .root
  current : Entries := []

namespace Draft

/-- Puts the table being filled into its place. -/
def finish (d : Draft) : Option Entries :=
  match d.place with
  | .root => some d.current
  | .table path name => do
    let change (_ : Origin) (entries : Entries) : Option (Unit × Entries) :=
      some ((), entries.put name (.table .header d.current))
    let (_, root) ← d.root.descend false change path .header
    return root
  | .element path name => do
    let change (_ : Origin) (entries : Entries) : Option (Unit × Entries) :=
      match entries.lookup name with
      | some (.tables elements) => some ((), entries.put name (.tables (elements ++ [d.current])))
      | _ => none
    let (_, root) ← d.root.descend false change path .header
    return root

/-- Begins a table under its own header. It may exist only as a part of deeper headers. -/
def beginTable (root : Entries) (path : List String) (name : String) : Option Draft := do
  let change (_ : Origin) (entries : Entries) : Option (Entries × Entries) :=
    match entries.lookup name with
    | none => some ([], entries)
    | some (.table .onTheWay inner) => some (inner, entries.filter (·.1 != name))
    | some _ => none
  let (current, root) ← root.descend false change path .header
  return { root, place := .table path name, current }

/-- Begins the next table of a list of tables. -/
def beginElement (root : Entries) (path : List String) (name : String) : Option Draft := do
  let change (_ : Origin) (entries : Entries) : Option (Unit × Entries) :=
    match entries.lookup name with
    | none => some ((), entries.put name (.tables []))
    | some (.tables _) => some ((), entries)
    | some _ => none
  let (_, root) ← root.descend false change path .header
  return { root, place := .element path name, current := [] }

def add (d : Draft) : Statement → Option Draft
  | .pair path name v => do return { d with current := ← d.current.addPair path name v }
  | .table path name => do beginTable (← d.finish) path name
  | .element path name => do beginElement (← d.finish) path name

end Draft

/-- The table that the lines of a document make, or none if they contradict each other. -/
def tableOf? (statements : List Statement) : Option Value := do
  let draft ← statements.foldlM Draft.add {}
  return .object (toFields (← draft.finish))

end TimingExplorer.Toml
