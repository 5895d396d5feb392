import TimingExplorer.Double

/-!
The tree of a structured document. Both notations that the library reads, JSON and TOML, give such a
tree, and what the library writes is one.
-/

namespace TimingExplorer.Document

inductive Value where
  | null
  | bool (b : Bool)
  | integer (n : Int)
  | real (x : Double)
  | string (text : String)
  /-- A calendar date, a time of day, or both. -/
  | dateTime
  | array (items : List Value)
  | object (fields : List (String × Value))
  /-- Well formed, but not the value of any type: a text with half a surrogate pair, a number beyond
  the range of a double, or an object with such a text for a key. It may stand where a document is
  not looked at. -/
  | unreadable
  deriving Inhabited

end TimingExplorer.Document
