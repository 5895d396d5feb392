import TimingExplorer.Proofs.Cone.Appending
import TimingExplorer.Proofs.Design.SelfContained

/-!
Names in a loaded design. Each object has one name and each name leads to one object, also where
names of instances hold slashes: the full names of two pins differ because the loading refuses a
name that is taken. The label of a node is put together from what the layout says, and is still the
full name of its pin.
-/
namespace TimingExplorer

/-- Names and ids lead to each other one to one: just these names, and just these ids. -/
structure OneToOne {kind : IdKind} (names : List String) (known : Id kind → Bool)
    (find : String → Option (Id kind)) (name? : Id kind → Option String) : Prop where
  inverse : ∀ name id, find name = some id ↔ name? id = some name
  named : ∀ name, (∃ id, find name = some id) ↔ name ∈ names
  known : ∀ id, (∃ name, name? id = some name) ↔ known id = true

theorem Indexes.oneToOne {kind : IdKind} {names : List String} {known : Id kind → Bool}
    {find : String → Option (Id kind)} {name? : Id kind → Option String}
    (indexed : Indexes names find) (stored : ∀ id, name? id = names[id.raw]?)
    (all : ∀ id, known id = true ↔ id.raw < names.length) : OneToOne names known find name? where
  inverse name id := by rw [stored, indexed]
  named name := by rw [← Option.isSome_iff_exists, indexed.isSome_iff]
  known id := by simp [← Option.isSome_iff_exists, stored, all]

namespace Design

open Snapshot

variable {s : Snapshot} {d : Design} {pin : PinId} {point : AnalysisPoint} {n : PathNode} {p : Pin}

/-- The name of a pin written in an instance, or in none, once the instance is known. -/
def nameIn (d : Design) (cell : Option InstanceId) (name : String) : String :=
  match cell.bind d.instances.get? with
  | some inst => inst.name ++ "/" ++ name
  | none => name

theorem fullName_eq (d : Design) (pin : PinId) :
    d.fullName pin = (d.pins.get? pin).map fun p => d.nameIn p.inst p.name := rfl

theorem Netlist.nameIn_of_named (netlist : Netlist s d) {name : String} {cell : Option InstanceId}
    {spec : PinSpec} (written : (name, cell, spec) ∈ s.namedPins) :
    d.nameIn cell spec.name = name := by
  rcases List.mem_append.mp written with ofBlock | ofInstance
  · obtain ⟨spec', _, same⟩ := List.mem_map.mp ofBlock
    obtain ⟨rfl, rfl, rfl⟩ := same
    rfl
  · obtain ⟨⟨inst, i⟩, placed, member⟩ := List.mem_flatMap.mp ofInstance
    obtain ⟨spec', _, same⟩ := List.mem_map.mp member
    obtain ⟨rfl, rfl, rfl⟩ := same
    obtain ⟨data, found, head⟩ := netlist.exists_instance (List.mem_zipIdx_iff_getElem?.mp placed)
    have name : data.name = inst.name := congrArg Prod.fst head
    rw [nameIn, Option.bind_some, found]
    dsimp only
    rw [name]
    rfl

theorem Netlist.fullName (netlist : Netlist s d) (pin : PinId) :
    d.fullName pin = s.pinNames[pin.raw]? := by
  have entries := congrArg (·[pin.raw]?) netlist.pins
  simp only [List.getElem?_map, Arena.getElem?_toList, ← map_snd_namedPins] at entries
  rw [fullName_eq, ← map_fst_namedPins, List.getElem?_map]
  cases written : s.namedPins[pin.raw]? with
  | none =>
    rw [written, Option.map_none, Option.map_eq_none_iff] at entries
    rw [entries]
    rfl
  | some entry =>
    obtain ⟨name, cell, spec⟩ := entry
    rw [written, Option.map_some, Option.map_eq_some_iff] at entries
    obtain ⟨p, found, same⟩ := entries
    obtain ⟨rfl, rfl⟩ := Prod.mk.inj same
    rw [found, Option.map_some, Option.map_some]
    exact congrArg some (netlist.nameIn_of_named (List.mem_of_getElem? written))

theorem Netlist.oneToOne_pins (netlist : Netlist s d) :
    OneToOne s.pinNames d.pins.contains d.findPin d.fullName :=
  netlist.findPin.oneToOne netlist.fullName fun id => by
    rw [Arena.contains_iff, netlist.size_pins]

theorem Netlist.oneToOne_instances (netlist : Netlist s d) :
    OneToOne (s.instances.map (·.name)) d.instances.contains d.findInstance
      d.database.instanceName := by
  have names : d.instances.toList.map (·.name) = s.instances.map (·.name) := by
    have first := congrArg (List.map Prod.fst) netlist.instances
    rwa [List.map_map, List.map_map] at first
  refine netlist.findInstance.oneToOne (fun id => ?_) fun id => ?_
  · rw [← names, List.getElem?_map, Arena.getElem?_toList]
    rfl
  · rw [← names, List.length_map, Arena.length_toList, Arena.contains_iff]

theorem Netlist.oneToOne_corners (netlist : Netlist s d) :
    OneToOne s.corners d.corners.contains d.engine.findCorner d.engine.cornerName := by
  have distinct : OneToOne s.corners.eraseDups d.corners.contains d.engine.findCorner
      d.engine.cornerName := by
    refine netlist.findCorner.oneToOne (fun id => ?_) fun id => ?_
    · rw [← netlist.corners, Arena.getElem?_toList]
      rfl
    · rw [← netlist.corners, Arena.length_toList, Arena.contains_iff]
  exact ⟨distinct.inverse, fun name => (distinct.named name).trans List.mem_eraseDups,
    distinct.known⟩

namespace SelfContained

theorem terminalPin (closed : d.SelfContained) (found : d.pins.get? pin = some p) :
    d.terminalPin p.terminal = some p := by
  have placed : (d.place pin).map Prod.fst = some p.terminal := by
    rw [place, found]
    rfl
  rw [Design.terminalPin, (closed.mapped.terminal_iff pin p.terminal).mp placed, Option.bind_some,
    found]

theorem exists_instance (closed : d.SelfContained) {inst : InstanceId}
    (found : d.pins.get? pin = some p) (placed : p.inst = some inst) :
    ∃ data, d.instances.get? inst = some data := by
  have cell : d.pinCell pin = some inst := by
    rw [pinCell, found]
    exact placed
  rw [← Option.isSome_iff_exists, Arena.isSome_get?]
  exact contains_of_mem ((closed.wired.mem_cellPins pin inst).mpr cell)

/-- What the layout says of a terminal gives the full name of its pin. -/
theorem label_of_terminal (closed : d.SelfContained) (found : d.pins.get? pin = some p)
    (terminal : n.terminal = p.terminal) : n.label d.database false = d.nameIn p.inst p.name := by
  have name : d.database.pinName n.terminal = some p.name := by
    show (d.terminalPin n.terminal).map (·.name) = some p.name
    rw [terminal, closed.terminalPin found, Option.map_some]
  have cell : n.instance? d.database = p.inst := by
    show (d.terminalPin n.terminal).bind (·.inst) = p.inst
    rw [terminal, closed.terminalPin found, Option.bind_some]
  rw [PathNode.label, name, cell, nameIn]
  cases placed : p.inst with
  | none => rfl
  | some inst =>
    obtain ⟨data, known⟩ := closed.exists_instance found placed
    have named : d.database.instanceName inst = some data.name := congrArg (Option.map _) known
    simp only [named, Option.getD_some, Option.bind_some, known, if_neg Bool.false_ne_true]

theorem label_of_ofPin (closed : d.SelfContained)
    (made : PathNode.ofPin d.context pin point = .ok n) :
    d.fullName pin = some (n.label d.database false) := by
  obtain ⟨p, found, terminal⟩ := Option.map_eq_some_iff.mp (PathNode.showsPin_ofPin made).terminal
  rw [fullName_eq, found, Option.map_some, closed.label_of_terminal found terminal.symm]

end SelfContained

/-- In a loaded design the full names and the pins lead to each other one to one, and so do
instances and corners and their names. Whatever the analysis point, the label of a pin's node is the
pin's full name and leads back to the pin. -/
theorem names_invert (loaded : ofSnapshot s = .ok d) :
    OneToOne s.pinNames d.pins.contains d.findPin d.fullName ∧
      OneToOne (s.instances.map (·.name)) d.instances.contains d.findInstance
        d.database.instanceName ∧
      OneToOne s.corners d.corners.contains d.engine.findCorner d.engine.cornerName ∧
      ∀ (service : QueryService) config point pin, service.context = .ok d.context →
        QueryService.pointOf d.engine config = .ok point → d.pins.contains pin = true →
        ∃ n, service.timingNodeWith config pin = .ok n ∧
          d.fullName pin = some (n.label d.database false) ∧
          d.findPin (n.label d.database false) = some pin := by
  have netlist := (Contents.of_loaded loaded).netlist
  refine ⟨netlist.oneToOne_pins, netlist.oneToOne_instances, netlist.oneToOne_corners, ?_⟩
  intro service config point pin bound resolved known
  obtain ⟨n, made⟩ := PathNode.exists_ofPin.mpr (mapped_context_iff.mpr known)
  have label := (SelfContained.of_loaded loaded).label_of_ofPin made
  refine ⟨n, (QueryService.timingNodeWith_eq bound resolved pin).trans made, label, ?_⟩
  exact (netlist.oneToOne_pins.inverse _ pin).mpr label

/-- Slashes in the names of a port, of an instance and of a pin. -/
def slashes : Snapshot where
  corners := ["typ"]
  blockPins := [{ name := "a/e", direction := .input }]
  instances :=
    [{ name := "a", master := "BUF", pins := [{ name := "b/d", direction := .input }] },
      { name := "a/b", master := "BUF", pins := [{ name := "e", direction := .output }] }]

theorem names_invert_slashes : ∃ d, ofSnapshot slashes = .ok d ∧
    d.fullName ⟨0⟩ = some "a/e" ∧ d.fullName ⟨1⟩ = some "a/b/d" ∧ d.fullName ⟨2⟩ = some "a/b/e" ∧
    ∃ n, (QueryService.ofContext d.context).timingNodeWith { corner := some "typ" } ⟨2⟩ = .ok n ∧
      n.label d.database false = "a/b/e" := by
  obtain ⟨d, loaded⟩ := exists_loaded (s := slashes) (by decide)
  have netlist := (Contents.of_loaded loaded).netlist
  obtain ⟨⟨inverse, _, known⟩, _, _, labels⟩ := names_invert loaded
  have named (name : String) (pin : PinId) (here : slashes.pinNames[pin.raw]? = some name) :
      d.fullName pin = some name :=
    (inverse name pin).mp ((netlist.findPin name pin).mpr here)
  have third : d.fullName ⟨2⟩ = some "a/b/e" := named _ _ (by decide)
  have corner : d.findCorner "typ" = some ⟨0⟩ := (netlist.findCorner _ _).mpr (by decide)
  have resolved : QueryService.pointOf d.engine { corner := some "typ" } = .ok ⟨⟨0⟩, .max⟩ := by
    have found : d.engine.findCorner "typ" = some ⟨0⟩ := corner
    rw [QueryService.pointOf]
    dsimp only
    rw [found]
    rfl
  obtain ⟨n, made, label, _⟩ := labels (.ofContext d.context) _ _ ⟨2⟩ rfl resolved
    ((known _).mp ⟨_, third⟩)
  exact ⟨d, loaded, named _ _ (by decide), named _ _ (by decide), third, n, made,
    Option.some.inj (label.symm.trans third)⟩

end Design

end TimingExplorer
