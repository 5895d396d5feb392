import TimingExplorer.Proofs.Design.Demands

/-!
Loading corners, pins and instances. After any part of a snapshot has been read, the design holds
just that part: `Netlist` says so, and each item read keeps it, for the snapshot with the item
added.
-/
namespace TimingExplorer

/-- A table that finds just these names, each at its position. -/
def Indexes {kind : IdKind} (names : List String) (find : String → Option (Id kind)) : Prop :=
  ∀ name id, find name = some id ↔ names[id.raw]? = some name

namespace Indexes

variable {kind : IdKind} {names : List String} {find find' : String → Option (Id kind)}
  {name other : String} {id : Id kind}

theorem nil (none : ∀ name, find name = none) : Indexes [] find := fun name id => by
  simp [none name]

theorem isSome_iff (indexed : Indexes names find) : (find name).isSome = true ↔ name ∈ names := by
  rw [Option.isSome_iff_exists, List.mem_iff_getElem?]
  constructor
  · rintro ⟨id, found⟩
    exact ⟨id.raw, (indexed name id).mp found⟩
  · rintro ⟨i, here⟩
    exact ⟨⟨i⟩, (indexed name ⟨i⟩).mpr here⟩

theorem eq_none_iff (indexed : Indexes names find) : find name = none ↔ name ∉ names := by
  rw [← indexed.isSome_iff, Option.not_isSome_iff_eq_none]

theorem inj (indexed : Indexes names find) (found : find name = some id)
    (found' : find other = some id) : name = other :=
  Option.some.inj (((indexed name id).mp found).symm.trans ((indexed other id).mp found'))

theorem raw_lt (indexed : Indexes names find) (found : find name = some id) :
    id.raw < names.length :=
  (List.getElem?_eq_some_iff.mp ((indexed name id).mp found)).1

theorem snoc (indexed : Indexes names find) (unused : name ∉ names)
    (extended : ∀ other, find' other = if name = other then some ⟨names.length⟩ else find other) :
    Indexes (names ++ [name]) find' := by
  intro other id
  rw [extended, List.getElem?_append]
  by_cases here : id.raw < names.length
  · rw [if_pos here, ← indexed]
    split
    · next same =>
      subst same
      rw [indexed.eq_none_iff.mpr unused]
      simp only [reduceCtorEq, iff_false, Option.some.injEq]
      rintro rfl
      exact Nat.lt_irrefl _ here
    · rfl
  · rw [if_neg here, List.getElem?_singleton]
    by_cases same : name = other
    · subst same
      obtain ⟨raw⟩ := id
      dsimp only at here ⊢
      simp only [if_pos, Option.some.injEq, Id.mk.injEq, ite_eq_left_iff, reduceCtorEq, imp_false]
      omega
    · rw [if_neg same]
      simp only [Option.ite_none_right_eq_some, Option.some.injEq, same, and_false, iff_false]
      exact fun found => here (indexed.raw_lt found)

theorem of_nodup (a : Arena kind String) (nodup : a.toList.Nodup) :
    Indexes a.toList fun name => a.find? (· == name) := by
  rintro name ⟨i⟩
  simp only [Arena.find?, Option.map_eq_some_iff, Id.mk.injEq, exists_eq_right,
    List.findIdx?_eq_some_iff_getElem, List.getElem?_eq_some_iff, beq_iff_eq]
  constructor
  · rintro ⟨below, here, _⟩
    exact ⟨below, here⟩
  · rintro ⟨below, rfl⟩
    refine ⟨below, rfl, fun j before same => ?_⟩
    exact Nat.ne_of_lt before ((nodup.getElem_inj_iff).mp same)

end Indexes

namespace Snapshot

/-- The snapshot with one more instance, its last. -/
def addInstance (s : Snapshot) (spec : InstanceSpec) : Snapshot :=
  { s with instances := s.instances ++ [spec] }

/-- All pins in the order of their ids, each with its instance. -/
def pinEntries (s : Snapshot) : List (Option InstanceId × PinSpec) :=
  s.blockPins.map (none, ·) ++
    s.instances.zipIdx.flatMap fun (inst, i) => inst.pins.map (some ⟨i⟩, ·)

/-- All arcs, with the full names of their ends. -/
def writtenArcs (s : Snapshot) : List (String × String) :=
  s.instances.flatMap fun inst =>
    inst.arcs.map fun arc => (inst.fullName arc.1, inst.fullName arc.2)

/-- What is written of an instance itself. -/
def InstanceSpec.head (spec : InstanceSpec) : String × String × Bool :=
  (spec.name, spec.master, spec.sequential)

/-- All pins with the names by which they are found. -/
def namedPins (s : Snapshot) : List (String × Option InstanceId × PinSpec) :=
  s.blockPins.map (fun pin => (pin.name, none, pin)) ++
    s.instances.zipIdx.flatMap fun (inst, i) =>
      inst.pins.map fun pin => (inst.fullName pin.name, some ⟨i⟩, pin)

theorem map_fst_namedPins (s : Snapshot) : s.namedPins.map Prod.fst = s.pinNames := by
  have instances : s.instances.zipIdx.flatMap (fun (inst, _) => inst.pinNames) =
      s.instances.flatMap InstanceSpec.pinNames := by
    rw [← List.flatMap_map Prod.fst, List.zipIdx_map_fst]
  simp only [namedPins, pinNames, blockPinNames, instancePinNames, List.map_append, List.map_map,
    List.map_flatMap, ← instances]
  rfl

theorem map_snd_namedPins (s : Snapshot) : s.namedPins.map Prod.snd = s.pinEntries := by
  simp only [namedPins, pinEntries, List.map_append, List.map_map, List.map_flatMap]
  rfl

theorem length_pinEntries (s : Snapshot) : s.pinEntries.length = s.pinNames.length := by
  rw [← map_fst_namedPins, ← map_snd_namedPins, List.length_map, List.length_map]

variable {s : Snapshot} {inst : InstanceSpec} {spec : PinSpec}

theorem pinNames_addInstance :
    (s.addInstance inst).pinNames = s.pinNames ++ inst.pinNames := by
  simp [addInstance, pinNames, blockPinNames, instancePinNames]

theorem pinEntries_addInstance : (s.addInstance inst).pinEntries =
    s.pinEntries ++ inst.pins.map (some ⟨s.instances.length⟩, ·) := by
  simp [addInstance, pinEntries, List.zipIdx_append]

theorem writtenArcs_addInstance : (s.addInstance inst).writtenArcs = s.writtenArcs ++
    inst.arcs.map fun arc => (inst.fullName arc.1, inst.fullName arc.2) := by
  simp [addInstance, writtenArcs]

end Snapshot

namespace Design

open Snapshot

/-- What is written of a pin, and its instance. -/
def Pin.entry (p : Pin) : Option InstanceId × PinSpec :=
  (p.inst, { name := p.name, direction := p.direction, clock := p.isClock, shapes := p.shapes })

def Instance.head (i : Instance) : String × String × Bool := (i.name, i.master, i.sequential)

/-- Corners, pins, instances and arcs are those of the snapshot. -/
structure Netlist (s : Snapshot) (d : Design) : Prop where
  built : d.Buildable
  corners : d.corners.toList = s.corners.eraseDups
  pins : d.pins.toList.map Pin.entry = s.pinEntries
  instances : d.instances.toList.map Instance.head = s.instances.map InstanceSpec.head
  findPin : Indexes s.pinNames d.findPin
  findInstance : Indexes (s.instances.map (·.name)) d.findInstance
  resolved : ∀ arc ∈ s.writtenArcs, arc.1 ∈ s.pinNames ∧ arc.2 ∈ s.pinNames
  arcs : ∀ inst p q, (p, q) ∈ d.arcsOf inst ↔ d.pinCell p = some inst ∧
    ∃ arc ∈ s.writtenArcs, d.findPin arc.1 = some p ∧ d.findPin arc.2 = some q

/-- A design in which nothing but pins and instances has been built. -/
structure Bare (d : Design) : Prop where
  nets : d.nets = .empty
  timing : d.timing = ∅
  paths : d.paths = .empty

variable {s t : Snapshot} {d e : Design} {p : Pin} {pin : PinId} {inst : InstanceId} {name : String}

theorem findPin_congr (same : e.pinNames = d.pinNames) : e.findPin = d.findPin := by
  unfold Design.findPin
  rw [same]

theorem findInstance_congr (same : e.instanceNames = d.instanceNames) :
    e.findInstance = d.findInstance := by
  unfold Design.findInstance
  rw [same]

theorem map_name_of_heads
    (same : t.instances.map InstanceSpec.head = s.instances.map InstanceSpec.head) :
    t.instances.map (·.name) = s.instances.map (·.name) := by
  have first := congrArg (List.map Prod.fst) same
  rw [List.map_map, List.map_map] at first
  exact first

namespace Netlist

theorem size_pins (n : Netlist s d) : d.pins.size = s.pinNames.length := by
  rw [← length_pinEntries, ← n.pins, List.length_map, Arena.length_toList]

theorem nextId_pins (n : Netlist s d) : d.pins.nextId = ⟨s.pinNames.length⟩ :=
  congrArg Id.mk n.size_pins

theorem nextId_instances (n : Netlist s d) : d.instances.nextId = ⟨s.instances.length⟩ := by
  refine congrArg Id.mk ?_
  rw [← List.length_map, ← n.instances, List.length_map]
  rfl

theorem contains (n : Netlist s d) (found : d.findPin name = some pin) :
    d.pins.contains pin = true := by
  rw [Arena.contains_iff, n.size_pins]
  exact n.findPin.raw_lt found

theorem findCorner (n : Netlist s d) : Indexes s.corners.eraseDups d.findCorner := by
  have indexed := Indexes.of_nodup d.corners (n.corners ▸ nodup_eraseDups s.corners)
  rwa [n.corners] at indexed

theorem exists_instance (n : Netlist s d) {spec : InstanceSpec} {i : Nat}
    (written : s.instances[i]? = some spec) :
    ∃ data, d.instances.get? ⟨i⟩ = some data ∧ data.head = spec.head := by
  have heads := congrArg (·[i]?) n.instances
  simp only [List.getElem?_map, Arena.getElem?_toList, written] at heads
  exact Option.map_eq_some_iff.mp heads

/-- A pin found by a name is the one written under it. -/
theorem pinCell_of_named (n : Netlist s d) {spec : PinSpec} {cell : Option InstanceId}
    (written : (name, cell, spec) ∈ s.namedPins) (found : d.findPin name = some pin) :
    d.pinCell pin = cell := by
  obtain ⟨i, here⟩ := List.mem_iff_getElem?.mp written
  have named : s.pinNames[i]? = some name := by
    rw [← map_fst_namedPins, List.getElem?_map, here]
    rfl
  have entry : s.pinEntries[i]? = some (cell, spec) := by
    rw [← map_snd_namedPins, List.getElem?_map, here]
    rfl
  obtain rfl := Option.some.inj (((n.findPin name ⟨i⟩).mpr named).symm.trans found)
  have same : (d.pins.get? ⟨i⟩).map Pin.entry = some (cell, spec) := by
    rw [← entry, ← n.pins, List.getElem?_map, Arena.getElem?_toList]
  obtain ⟨p, known, placed⟩ := Option.map_eq_some_iff.mp same
  rw [pinCell, known]
  exact congrArg Prod.fst placed

/-- A new pin. -/
theorem addPin (n : Netlist s d) (built : e.Buildable) (unused : name ∉ s.pinNames)
    (corners : e.corners = d.corners) (pins : e.pins = d.pins.push p)
    (found : e.pinNames = d.pinNames.insert name d.pins.nextId)
    (heads : e.instances.toList.map Instance.head = d.instances.toList.map Instance.head)
    (instanceNames : e.instanceNames = d.instanceNames) (arcs : e.arcsOf = d.arcsOf)
    (corners' : t.corners = s.corners) (pins' : t.pinEntries = s.pinEntries ++ [p.entry])
    (names' : t.pinNames = s.pinNames ++ [name])
    (instances' : t.instances.map InstanceSpec.head = s.instances.map InstanceSpec.head)
    (arcs' : t.writtenArcs = s.writtenArcs) : Netlist t e := by
  have extended (other) : e.findPin other =
      if name = other then some ⟨s.pinNames.length⟩ else d.findPin other := by
    rw [Design.findPin, found, Std.TreeMap.getElem?_insert, n.nextId_pins]
    simp only [Std.LawfulEqCmp.compare_eq_iff_eq]
    rfl
  -- Arcs name pins that were known before, so neither end of one can be the new pin.
  have kept {other} (known : other ∈ s.pinNames) : e.findPin other = d.findPin other := by
    rw [extended, if_neg]
    rintro rfl
    exact unused known
  have placed {other id} (known : d.findPin other = some id) : e.pinCell id = d.pinCell id := by
    have old : id ≠ d.pins.nextId := by
      rintro rfl
      exact Nat.ne_of_lt (n.findPin.raw_lt known) (congrArg Id.raw n.nextId_pins)
    rw [pinCell, pins, Arena.get?_push, if_neg old]
    rfl
  have names := map_name_of_heads instances'
  have cells := findInstance_congr instanceNames
  refine ⟨built, ?_, ?_, ?_, ?_, ?_, ?_, ?_⟩
  · rw [corners, corners', n.corners]
  · rw [pins, Arena.toList_push, List.map_append, n.pins, pins']
    rfl
  · rw [heads, n.instances, instances']
  · rw [names']
    exact n.findPin.snoc unused extended
  · rw [names, cells]
    exact n.findInstance
  · intro arc written
    rw [arcs'] at written
    obtain ⟨first, second⟩ := n.resolved arc written
    rw [names']
    exact ⟨List.mem_append_left _ first, List.mem_append_left _ second⟩
  · intro inst a b
    rw [arcs, n.arcs, arcs']
    constructor
    · rintro ⟨cell, arc, written, first, second⟩
      obtain ⟨known, known'⟩ := n.resolved arc written
      refine ⟨(placed first).trans cell, arc, written, ?_, ?_⟩
      · rwa [kept known]
      · rwa [kept known']
    · rintro ⟨cell, arc, written, first, second⟩
      obtain ⟨known, known'⟩ := n.resolved arc written
      rw [kept known] at first
      rw [kept known'] at second
      exact ⟨(placed first).symm.trans cell, arc, written, first, second⟩

/-- Changes that no part of the netlist shows. -/
theorem of_views (n : Netlist s d) (built : e.Buildable) (corners : e.corners = d.corners)
    (pins : ∀ pin, (e.pins.get? pin).map Pin.entry = (d.pins.get? pin).map Pin.entry)
    (instances : e.instances = d.instances) (pinNames : e.pinNames = d.pinNames)
    (instanceNames : e.instanceNames = d.instanceNames) : Netlist s e := by
  have cell (pin) : e.pinCell pin = d.pinCell pin := by
    have same := congrArg (Option.bind · Prod.fst) (pins pin)
    rw [Option.bind_map, Option.bind_map] at same
    exact same
  have find := findPin_congr pinNames
  have arcs (inst) : e.arcsOf inst = d.arcsOf inst := by
    rw [arcsOf, instances]
    rfl
  refine ⟨built, ?_, ?_, ?_, ?_, ?_, n.resolved, fun inst a b => ?_⟩
  · rw [corners, n.corners]
  · rw [Arena.map_toList_eq _ pins, n.pins]
  · rw [instances, n.instances]
  · rw [find]
    exact n.findPin
  · rw [findInstance_congr instanceNames]
    exact n.findInstance
  · rw [arcs, cell, find]
    exact n.arcs inst a b

/-- A new instance, without pins or arcs. -/
theorem addInstance (n : Netlist s d) (built : e.Buildable) {spec : InstanceSpec} {i : Instance}
    (bare : spec.pins = [] ∧ spec.arcs = []) (bare' : i.arcs = []) (head : i.head = spec.head)
    (unused : spec.name ∉ s.instances.map (·.name)) (corners : e.corners = d.corners)
    (pins : e.pins = d.pins) (pinNames : e.pinNames = d.pinNames)
    (instances : e.instances = d.instances.push i)
    (instanceNames : e.instanceNames = d.instanceNames.insert spec.name d.instances.nextId) :
    Netlist (s.addInstance spec) e := by
  have names : (s.addInstance spec).pinNames = s.pinNames := by
    rw [pinNames_addInstance, InstanceSpec.pinNames, bare.1]
    exact List.append_nil _
  have written : (s.addInstance spec).writtenArcs = s.writtenArcs := by
    rw [writtenArcs_addInstance, bare.2]
    exact List.append_nil _
  have find := findPin_congr pinNames
  have cell (pin) : e.pinCell pin = d.pinCell pin := by
    rw [pinCell, pins]
    rfl
  have arcs (inst) : e.arcsOf inst = d.arcsOf inst := by
    rw [arcsOf, instances, Arena.get?_push, arcsOf]
    split
    · next fresh =>
      rw [fresh, get?_nextId]
      exact bare'
    · rfl
  refine ⟨built, ?_, ?_, ?_, ?_, ?_, ?_, fun inst a b => ?_⟩
  · rw [corners, n.corners]
    rfl
  · rw [pins, n.pins, pinEntries_addInstance, bare.1]
    exact (List.append_nil _).symm
  · rw [instances, Arena.toList_push, List.map_append, n.instances, Snapshot.addInstance,
      List.map_append, List.map_singleton, head]
    rfl
  · rw [names, find]
    exact n.findPin
  · rw [Snapshot.addInstance, List.map_append]
    refine n.findInstance.snoc unused fun other => ?_
    rw [Design.findInstance, instanceNames, Std.TreeMap.getElem?_insert, n.nextId_instances,
      List.length_map]
    simp only [Std.LawfulEqCmp.compare_eq_iff_eq]
    rfl
  · rw [names, written]
    exact n.resolved
  · rw [arcs, cell, find, written]
    exact n.arcs inst a b

/-- A new arc, written at the last instance and stored where it begins. -/
theorem addArc (n : Netlist s d) (built : e.Buildable) (arc : String × String) {a b : PinId}
    (first : d.findPin arc.1 = some a) (second : d.findPin arc.2 = some b)
    (arcs : ∀ inst, e.arcsOf inst =
      if d.pinCell a = some inst then d.arcsOf inst ++ [(a, b)] else d.arcsOf inst)
    (heads : e.instances.toList.map Instance.head = d.instances.toList.map Instance.head)
    (others : e = { d with instances := e.instances })
    (corners' : t.corners = s.corners) (pins' : t.pinEntries = s.pinEntries)
    (names' : t.pinNames = s.pinNames)
    (instances' : t.instances.map InstanceSpec.head = s.instances.map InstanceSpec.head)
    (arcs' : t.writtenArcs = s.writtenArcs ++ [arc]) : Netlist t e := by
  have names := map_name_of_heads instances'
  have find : e.findPin = d.findPin := by rw [others]; rfl
  have cell : e.pinCell = d.pinCell := by rw [others]; rfl
  refine ⟨built, ?_, ?_, ?_, ?_, ?_, ?_, fun inst p q => ?_⟩
  · rw [others, corners']
    exact n.corners
  · rw [others, pins']
    exact n.pins
  · rw [heads, n.instances, instances']
  · rw [names', find]
    exact n.findPin
  · rw [names, others]
    exact n.findInstance
  · intro written
    rw [arcs', names', List.mem_append, List.mem_singleton]
    rintro (before | rfl)
    · exact n.resolved written before
    · rw [← n.findPin.isSome_iff, ← n.findPin.isSome_iff, first, second]
      exact ⟨rfl, rfl⟩
  · have new : (∃ w ∈ t.writtenArcs, d.findPin w.1 = some p ∧ d.findPin w.2 = some q) ↔
        (∃ w ∈ s.writtenArcs, d.findPin w.1 = some p ∧ d.findPin w.2 = some q) ∨
          a = p ∧ b = q := by
      simp [arcs', or_and_right, exists_or, first, second]
    rw [arcs, find, cell, new, and_or_left, ← n.arcs]
    split
    · next placed =>
      rw [List.mem_append, List.mem_singleton, Prod.mk.injEq]
      refine or_congr_right ⟨?_, ?_⟩
      · rintro ⟨rfl, rfl⟩
        exact ⟨placed, rfl, rfl⟩
      · rintro ⟨_, rfl, rfl⟩
        exact ⟨rfl, rfl⟩
    · next elsewhere =>
      refine (or_iff_left ?_).symm
      rintro ⟨placed, rfl, rfl⟩
      exact elsewhere placed

end Netlist

/-! ## The corners -/

theorem foldl_addCorner (names : List String) (before : List String)
    (start : d.corners.toList = before.eraseDups) : ∃ corners : Arena .corner String,
      names.foldl (fun d name => (d.addCorner name).2) d = { d with corners } ∧
        corners.toList = (before ++ names).eraseDups := by
  induction names generalizing d before with
  | nil => exact ⟨d.corners, rfl, by rw [start, List.append_nil]⟩
  | cons name rest ih =>
    have indexed := Indexes.of_nodup d.corners (start ▸ nodup_eraseDups before)
    have listed : (d.findCorner name).isSome = true ↔ name ∈ before := by
      rw [findCorner, indexed.isSome_iff, start, List.mem_eraseDups]
    have first : (d.addCorner name).2.corners.toList = (before ++ [name]).eraseDups := by
      rw [eraseDups_snoc, addCorner]
      cases found : d.findCorner name with
      | some corner => rw [if_pos (listed.mp (by rw [found]; rfl)), start]
      | none =>
        rw [if_neg fun old => by simpa [found] using listed.mpr old, ← start]
        exact Arena.toList_push _ _
    obtain ⟨corners, result, all⟩ := ih (before ++ [name]) first
    refine ⟨corners, ?_, by simpa using all⟩
    rw [List.foldl_cons, result, addCorner]
    cases d.findCorner name <;> rfl

theorem buildAll?_corners (names : List String) : d.buildAll? (names.map .corner) =
    some (names.foldl (fun d name => (d.addCorner name).2) d) := by
  induction names generalizing d with
  | nil => rfl
  | cons name rest ih => exact ih

/-- A snapshot of which only the corners have been read. -/
theorem netlist_corners (s : Snapshot) :
    Netlist { corners := s.corners } (s.corners.foldl (fun d name => (d.addCorner name).2) empty) ∧
      (s.corners.foldl (fun d name => (d.addCorner name).2) empty).Bare := by
  have done := buildAll?_corners (d := empty) s.corners
  obtain ⟨corners, result, all⟩ := @foldl_addCorner empty s.corners [] rfl
  rw [result] at done ⊢
  refine ⟨⟨Buildable.empty.grow done, all, rfl, rfl, ?_, ?_, ?_, ?_⟩, ⟨rfl, rfl, rfl⟩⟩
  · exact .nil fun name => by simp [findPin, empty]
  · exact .nil fun name => by simp [findInstance, empty]
  · intro arc written
    cases written
  · intro inst p q
    simp [arcsOf, empty, pinCell]

/-! ## The pins of the block -/

theorem reads_blockPin (n : Netlist s d) (bare : d.Bare) (early : s.instances = [])
    (spec : PinSpec) : Reads (blockPinDemands s.blockPins spec)
      (fun e => Netlist { s with blockPins := s.blockPins ++ [spec] } e ∧ e.Bare)
      (d.replayBlockPin spec) (d.loadBlockPin spec) := by
  have names : s.pinNames = s.blockPinNames := by
    simp [Snapshot.pinNames, instancePinNames, early]
  have taken : (d.findPin spec.name).isSome = true ↔ spec.name ∈ s.blockPinNames := by
    rw [n.findPin.isSome_iff, names]
  refine .unused taken fun old => ?_
  let pin : Pin :=
    { name := spec.name, inst := none, terminal := .ofBlock d.blockTerminals.nextId
      direction := spec.direction }
  let placed := (d.addBlockPin spec.name spec.direction).2
  have first : d.build? (.blockPin spec.name spec.direction) = some placed := rfl
  have new : placed.pins = d.pins.push pin := rfl
  have done := buildAll?_of_push first new spec
  show Reads _ _ (d.perform _) (.ok (placed.withAttributes d.pins.nextId spec))
  rw [withAttributes_of_push new]
  refine .perform n.built done ⟨?_, bare.nets, bare.timing, bare.paths⟩
  have entries : ({ s with blockPins := s.blockPins ++ [spec] } : Snapshot).pinEntries =
      s.pinEntries ++ [(pin.attributed spec).entry] := by
    simp [pinEntries, early, Pin.entry, Pin.attributed, pin]
  have grown : ({ s with blockPins := s.blockPins ++ [spec] } : Snapshot).pinNames =
      s.pinNames ++ [spec.name] := by
    simp [Snapshot.pinNames, blockPinNames, instancePinNames, early]
  exact n.addPin (n.built.grow done) (names ▸ old) rfl rfl rfl rfl rfl rfl rfl entries grown rfl rfl

theorem reads_blockPins (s : Snapshot) (n : Netlist { corners := s.corners } d)
    (bare : d.Bare) : Reads (inOrder blockPinDemands [] s.blockPins)
      (fun e => Netlist { corners := s.corners, blockPins := s.blockPins } e ∧ e.Bare)
      (s.blockPins.foldlM replayBlockPin d) (s.blockPins.foldlM loadBlockPin d) :=
  Reads.foldlM (fun before e =>
    Netlist { corners := s.corners, blockPins := before } e ∧ e.Bare)
    (fun _ spec _ kept => reads_blockPin kept.1 kept.2 rfl spec) ⟨n, bare⟩

/-! ## The instances, with their pins and arcs -/

theorem reads_lookUpPin {names : List String} (indexed : Indexes names d.findPin) (name : String) :
    Reads [.pin name names] (fun pin => d.findPin name = some pin)
      (.of (d.lookUpPin name)) (d.lookUpPin name) := by
  have outcome : d.lookUpPin name = (d.findPin name).elim (.error (.unknownPin name)) .ok := by
    unfold lookUpPin
    cases d.findPin name <;> rfl
  rw [outcome]
  exact .lookUp (.pin name names) _ indexed.isSome_iff

theorem reads_instancePin {spec : InstanceSpec} {before : List PinSpec}
    (n : Netlist (s.addInstance { spec with pins := before, arcs := [] }) d) (bare : d.Bare)
    (pin : PinSpec) : Reads (instancePinDemands s.pinNames spec before pin)
      (fun e =>
        Netlist (s.addInstance { spec with pins := before ++ [pin], arcs := [] }) e ∧ e.Bare)
      (replayInstancePin ⟨s.instances.length⟩ spec.name d pin)
      (loadInstancePin ⟨s.instances.length⟩ spec.name d pin) := by
  let written : InstanceSpec := { spec with pins := before, arcs := [] }
  have names : (s.addInstance written).pinNames = s.pinNames ++ written.pinNames :=
    pinNames_addInstance
  have taken : (d.findPin (spec.name ++ "/" ++ pin.name)).isSome = true ↔
      spec.fullName pin.name ∈ s.pinNames ++ before.map fun pin => spec.fullName pin.name := by
    rw [n.findPin.isSome_iff, names]
    rfl
  refine .unused taken fun old => ?_
  have last : (s.addInstance written).instances[s.instances.length]? = some written :=
    List.getElem?_concat_length ..
  obtain ⟨data, found, head⟩ := n.exists_instance last
  have named : data.name = spec.name := congrArg Prod.fst head
  let p : Pin :=
    { name := pin.name, inst := some ⟨s.instances.length⟩
      terminal := .ofInstance d.instanceTerminals.nextId, direction := pin.direction }
  let placed := (d.addInstancePin ⟨s.instances.length⟩ spec.name pin.name pin.direction).2
  have first : d.build? (.pin ⟨s.instances.length⟩ pin.name pin.direction) = some placed := by
    rw [build?, addPin?, found, Option.map_some, named]
    rfl
  have new : placed.pins = d.pins.push p := rfl
  have done := buildAll?_of_push first new pin
  show Reads _ _ (d.perform _) (.ok (placed.withAttributes d.pins.nextId pin))
  rw [withAttributes_of_push new]
  refine .perform n.built done ⟨?_, bare.nets, bare.timing, bare.paths⟩
  have heads : placed.instances.toList.map Instance.head =
      d.instances.toList.map Instance.head :=
    Arena.map_toList_eq _ fun id => map_get?_modify _ _ _ _ _ fun _ => rfl
  have arcs : placed.arcsOf = d.arcsOf :=
    funext fun id => elim_get?_modify d.instances _ id _ (·.arcs) [] fun _ => rfl
  refine n.addPin (n.built.grow done) (names ▸ old) rfl rfl rfl heads rfl arcs rfl ?_ ?_ ?_ ?_
  · simp [pinEntries_addInstance, Pin.entry, Pin.attributed, p]
  · simp [pinNames_addInstance, InstanceSpec.pinNames, InstanceSpec.fullName]
  · simp [Snapshot.addInstance, InstanceSpec.head]
  · simp [writtenArcs_addInstance]

/-- What an arc does, if both its ends are known. -/
theorem arcsOf_addArc {a b : PinId} (wired : d.Wired) (known : d.pins.contains a = true) :
    ∃ instances : Arena .cell Instance, d.addArc? a b = some { d with instances } ∧
      instances.toList.map Instance.head = d.instances.toList.map Instance.head ∧
      ∀ inst, ({ d with instances } : Design).arcsOf inst =
        if d.pinCell a = some inst then d.arcsOf inst ++ [(a, b)] else d.arcsOf inst := by
  rw [← Arena.isSome_get?, Option.isSome_iff_exists] at known
  obtain ⟨p, found⟩ := known
  have cell : d.pinCell a = p.inst := by rw [pinCell, found]; rfl
  rw [addArc?, found, cell]
  cases placed : p.inst with
  | none => exact ⟨d.instances, by simp [placed], rfl, fun inst => by simp⟩
  | some inst =>
    refine ⟨d.instances.modify inst fun i => { i with arcs := i.arcs ++ [(a, b)] },
      by simp [placed], ?_, ?_⟩
    · exact Arena.map_toList_eq _ fun id => map_get?_modify _ _ _ _ _ fun _ => rfl
    · intro other
      have listed := (wired.mem_cellPins a inst).mpr (cell.trans placed)
      simp only [arcsOf, Arena.get?_modify, Option.some.injEq]
      split
      · next same =>
        subst same
        unfold cellPins at listed
        cases here : d.instances.get? inst with
        | none => simp [here] at listed
        | some i => rfl
      · rfl

theorem reads_arc {spec : InstanceSpec} {before : List (String × String)}
    (n : Netlist (s.addInstance { spec with arcs := before }) d) (bare : d.Bare)
    (arc : String × String) :
    Reads (arcDemands (s.pinNames ++ spec.pinNames) spec before arc)
      (fun e => Netlist (s.addInstance { spec with arcs := before ++ [arc] }) e ∧ e.Bare)
      (replayArc spec.name d arc) (loadArc spec.name d arc) := by
  have names :
      (s.addInstance { spec with arcs := before }).pinNames = s.pinNames ++ spec.pinNames :=
    pinNames_addInstance
  have indexed := names ▸ n.findPin
  refine (reads_lookUpPin indexed (spec.fullName arc.1)).bind fun a first => ?_
  refine (reads_lookUpPin indexed (spec.fullName arc.2)).bind fun b second => ?_
  obtain ⟨instances, added, heads, arcs⟩ := arcsOf_addArc (b := b) n.built.wired (n.contains first)
  have done : d.buildAll? [.arc a b] = some { d with instances } :=
    (buildAll?_singleton _).trans added
  rw [added]
  refine .perform n.built done ⟨?_, bare.nets, bare.timing, bare.paths⟩
  refine n.addArc (n.built.grow done) (spec.fullName arc.1, spec.fullName arc.2) first second arcs
    heads rfl rfl ?_ ?_ ?_ ?_
  · simp [pinEntries_addInstance]
  · simp [pinNames_addInstance, InstanceSpec.pinNames, InstanceSpec.fullName]
  · simp [Snapshot.addInstance, InstanceSpec.head]
  · simp [writtenArcs_addInstance, InstanceSpec.fullName]

theorem reads_instance (n : Netlist s d) (bare : d.Bare) (spec : InstanceSpec) :
    Reads (instanceDemands s.blockPinNames s.instances spec)
      (fun e => Netlist (s.addInstance spec) e ∧ e.Bare)
      (d.replayInstance spec) (d.loadInstance spec) := by
  have taken : (d.findInstance spec.name).isSome = true ↔ spec.name ∈ s.instances.map (·.name) :=
    n.findInstance.isSome_iff
  refine .unused taken fun old => ?_
  have done := buildAll?_instanceSteps d spec
  refine .performThen n.built done ?_
  have start : Netlist (s.addInstance { spec with pins := [], arcs := [] })
      { (d.addInstance spec.name spec.master).2 with
        instances := d.instances.push (instanceAlone spec) } :=
    n.addInstance (n.built.grow done) ⟨rfl, rfl⟩ rfl rfl old rfl rfl rfl rfl rfl
  -- The loading marks the instance once it is there; the netlist has it marked from the start.
  show Reads _ _ _ (spec.pins.foldlM (loadInstancePin d.instances.nextId spec.name)
    (if spec.sequential then
      (d.addInstance spec.name spec.master).2.markSequential d.instances.nextId
    else (d.addInstance spec.name spec.master).2) >>= _)
  rw [markSequential_addInstance, n.nextId_instances]
  refine .bind (.foldlM (fun before e =>
    Netlist (s.addInstance { spec with pins := before, arcs := [] }) e ∧ e.Bare)
    (fun _ pin _ kept => reads_instancePin kept.1 kept.2 pin)
    ⟨start, bare.nets, bare.timing, bare.paths⟩) fun e kept => ?_
  exact .foldlM (fun before e =>
    Netlist (s.addInstance { spec with arcs := before }) e ∧ e.Bare)
    (fun _ arc _ kept => reads_arc kept.1 kept.2 arc) kept

theorem reads_instances (s : Snapshot)
    (n : Netlist { corners := s.corners, blockPins := s.blockPins } d) (bare : d.Bare) :
    Reads (inOrder (instanceDemands s.blockPinNames) [] s.instances)
      (fun e => Netlist s e ∧ e.Bare)
      (s.instances.foldlM replayInstance d) (s.instances.foldlM loadInstance d) := by
  have start : Netlist { s with instances := [] } d :=
    ⟨n.built, n.corners, n.pins, n.instances, n.findPin, n.findInstance, n.resolved, n.arcs⟩
  exact .foldlM (fun before e => Netlist { s with instances := before } e ∧ e.Bare)
    (fun _ spec _ kept => reads_instance kept.1 kept.2 spec) ⟨start, bare⟩

end Design

end TimingExplorer
