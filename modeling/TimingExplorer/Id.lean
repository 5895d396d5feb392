import Std.Data.TreeSet
import Std.Data.TreeMap

/-!
Identities. Every entity of a design or of a query result is named by a number that counts within
its own kind, so the kind is part of the type and ids of two kinds cannot be mixed. A pin has two
identities: `PinId` in the timing graph and `Terminal` in the layout.
-/

namespace TimingExplorer

/-- What an id counts. -/
inductive IdKind where
  | pin
  | instanceTerminal
  | blockTerminal
  | cell
  | net
  | corner
  | path
  | node
  | name
  deriving DecidableEq, Repr

/-- The word that stands for the kind where an id is shown to a reader. -/
def IdKind.label : IdKind → String
  | pin => "PinId"
  | instanceTerminal => "ITermId"
  | blockTerminal => "BTermId"
  | cell => "InstanceId"
  | net => "NetId"
  | corner => "CornerId"
  | path => "PathHandle"
  | node => "NodeId"
  | name => "Ident"

/-- The `raw`-th entity of its kind, counted from zero. -/
structure Id (kind : IdKind) where
  raw : Nat
  deriving DecidableEq, Repr

abbrev PinId := Id .pin
abbrev InstanceTerminalId := Id .instanceTerminal
abbrev BlockTerminalId := Id .blockTerminal
abbrev InstanceId := Id .cell
abbrev NetId := Id .net
abbrev CornerId := Id .corner
abbrev PathId := Id .path
abbrev NodeId := Id .node
abbrev NameId := Id .name

namespace Id

variable {kind : IdKind}

/-- Ids of one kind are ordered by number. -/
instance : Ord (Id kind) where
  compare a b := compare a.raw b.raw

theorem compare_eq (a b : Id kind) : compare a b = compare a.raw b.raw := rfl

instance : Std.TransOrd (Id kind) where
  eq_swap {a b} := by
    simp only [compare_eq]
    exact Std.OrientedCmp.eq_swap
  isLE_trans {a b c} := by
    simp only [compare_eq]
    exact Std.TransCmp.isLE_trans

instance : Std.LawfulEqOrd (Id kind) where
  eq_of_compare {a b} h := by
    obtain ⟨a⟩ := a
    obtain ⟨b⟩ := b
    exact congrArg Id.mk (Std.LawfulEqCmp.eq_of_compare (show compare a b = .eq from h))

/-- The id as shown in messages, such as `PinId(7)`. -/
def describe (id : Id kind) : String :=
  s!"{kind.label}({id.raw})"

end Id

/-- A set of pins: one hop of a path search accepts any member, and a cone level holds its pins. -/
abbrev PinSet := Std.TreeSet PinId

/-- A pin as the layout sees it: a terminal of a placed cell or of the block's boundary. -/
inductive Terminal where
  | ofInstance (id : InstanceTerminalId)
  | ofBlock (id : BlockTerminalId)
  deriving DecidableEq, Repr

namespace Terminal

/-- The instance terminal's number, if it is one. -/
def instanceTerminal? : Terminal → Option InstanceTerminalId
  | ofInstance id => some id
  | ofBlock _ => none

/-- The block terminal's number, if it is one. -/
def blockTerminal? : Terminal → Option BlockTerminalId
  | ofInstance _ => none
  | ofBlock id => some id

def isInstance (t : Terminal) : Bool := t.instanceTerminal?.isSome

def isBlock (t : Terminal) : Bool := t.blockTerminal?.isSome

/-- Instance terminals come before block terminals; within a kind the number decides. -/
instance : Ord Terminal where
  compare
    | ofInstance a, ofInstance b => compare a b
    | ofInstance _, ofBlock _ => .lt
    | ofBlock _, ofInstance _ => .gt
    | ofBlock a, ofBlock b => compare a b

/-- The terminal as shown to a reader, such as `ITerm(ITermId(5))`. -/
def describe : Terminal → String
  | ofInstance id => s!"ITerm({id.describe})"
  | ofBlock id => s!"BTerm({id.describe})"

end Terminal

end TimingExplorer
