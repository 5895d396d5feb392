import TimingExplorer.Design.Search
import TimingExplorer.Proofs.Design.Contents

/-!
A loaded design is what its snapshot says. Ids number what is written in order, and where entries
overlap the last one counts.
-/
namespace TimingExplorer

open Design

/-- What a design holds if it is the one that a snapshot describes. -/
structure Snapshot.Describes (s : Snapshot) (d : Design) : Prop where
  /-- Corner ids number the distinct names in the order of their first occurrence. -/
  corners : d.corners.toList = s.corners.eraseDups
  findCorner : Indexes s.corners.eraseDups d.findCorner
  /-- Pin ids number the pins of the block and then those of every instance. -/
  pins : d.pins.toList.map Pin.entry = s.pinEntries
  findPin : Indexes s.pinNames d.findPin
  instances : d.instances.toList.map Instance.head = s.instances.map InstanceSpec.head
  nets : d.nets.toList.map (·.name) = s.nets.map (·.name)
  /-- A pin is on the last net that lists it. -/
  pinNet : ∀ name pin, d.findPin name = some pin → ∀ net, d.pinNet pin = some net ↔
    ∃ before spec after, s.nets = before ++ spec :: after ∧ net = ⟨before.length⟩ ∧
      name ∈ spec.keptPins after
  netDrivers : ∀ before spec after, s.nets = before ++ spec :: after →
    d.netDrivers ⟨before.length⟩ =
      ((spec.keptPins after).filterMap d.findPin).filter fun pin => (d.pins.get? pin).any Pin.drives
  netLoads : ∀ before spec after, s.nets = before ++ spec :: after →
    d.netLoads ⟨before.length⟩ =
      ((spec.keptPins after).filterMap d.findPin).filter fun pin =>
        (d.pins.get? pin).any Pin.receives
  timing : Timed s d
  paths : Stored s d
  /-- A path has a capture path just if one is written for it, and that is stored next. -/
  capturePath : ∀ path capture, d.engine.capturePath path = some capture ↔
    ∃ spec captured, s.pathEntries[path.raw]? = some (.launch spec) ∧
      spec.capture = some captured ∧ capture = ⟨⟨path.raw + 1⟩, captured.offset⟩

namespace Design

open Snapshot

variable {s : Snapshot} {d : Design} {pin : PinId} {net : NetId} {name : String}

theorem Connected.pinNet_iff (c : Connected s d) (n : Netlist s d)
    (found : d.findPin name = some pin) : d.pinNet pin = some net ↔
      ∃ before spec after, s.nets = before ++ spec :: after ∧ net = ⟨before.length⟩ ∧
        name ∈ spec.keptPins after := by
  have listed {before after : List NetSpec} {spec : NetSpec}
      (split : s.nets = before ++ spec :: after) :
      pin ∈ d.members ⟨before.length⟩ ↔ name ∈ spec.keptPins after := by
    rw [c.members_split split, n.findPin.mem_filterMap found]
  rw [← n.built.wired.mem_members]
  constructor
  · intro member
    have known : net.raw < s.nets.length := by
      rw [← c.size_nets, ← Arena.contains_iff]
      exact contains_of_mem member
    have split : s.nets = s.nets.take net.raw ++ s.nets[net.raw] :: s.nets.drop (net.raw + 1) := by
      simp
    have here : net = ⟨(s.nets.take net.raw).length⟩ := by
      simp [Nat.le_of_lt known]
    exact ⟨_, _, _, split, here, (listed split).mp (here ▸ member)⟩
  · rintro ⟨before, spec, after, split, rfl, kept⟩
    exact (listed split).mpr kept

theorem Stored.exists_path (stored : Stored s d) {path : PathId} {entry : PathEntry}
    (written : s.pathEntries[path.raw]? = some entry) :
    ∃ p, d.paths.get? path = some p ∧ d.PathAsWritten path entry p := by
  obtain ⟨below, rfl⟩ := List.getElem?_eq_some_iff.mp written
  have below' : path.raw < s.pathEntries.zipIdx.length := by rwa [List.length_zipIdx]
  have known : path.raw < d.paths.toList.length := stored.length_eq ▸ below'
  have holds := List.Forall₂.get stored below' known
  rw [List.get_eq_getElem, List.get_eq_getElem, List.getElem_zipIdx, Nat.zero_add] at holds
  refine ⟨d.paths.toList[path.raw], ?_, holds⟩
  rw [← Arena.getElem?_toList]
  exact List.getElem?_eq_getElem known

theorem Stored.capturePath_iff (stored : Stored s d) {path : PathId} {capture : CapturePath} :
    d.engine.capturePath path = some capture ↔
      ∃ spec captured, s.pathEntries[path.raw]? = some (.launch spec) ∧
        spec.capture = some captured ∧ capture = ⟨⟨path.raw + 1⟩, captured.offset⟩ := by
  show (d.paths.get? path).bind (·.capture) = some capture ↔ _
  cases written : s.pathEntries[path.raw]? with
  | none =>
    have none : d.paths.get? path = none := by
      rw [← Arena.getElem?_toList, List.getElem?_eq_none_iff, Arena.length_toList, stored.size]
      exact List.getElem?_eq_none_iff.mp written
    simp [none]
  | some entry =>
    obtain ⟨p, found, holds⟩ := stored.exists_path written
    rw [found, Option.bind_some]
    cases entry with
    | launch spec =>
      obtain ⟨corner, stages, _, _, rfl⟩ := holds
      simp [eq_comm]
    | capture spec captured =>
      obtain ⟨corner, stages, _, _, rfl⟩ := holds
      simp

theorem ofSnapshot_describes (loaded : ofSnapshot s = .ok d) : s.Describes d := by
  obtain ⟨n, c, timed, stored⟩ := Contents.of_loaded loaded
  exact {
    corners := n.corners
    findCorner := n.findCorner
    pins := n.pins
    findPin := n.findPin
    instances := n.instances
    nets := c.names
    pinNet := fun name pin found net => c.pinNet_iff n found
    netDrivers := fun before spec after split => by
      rw [netDrivers, netPins_eq, c.members_split split]
    netLoads := fun before spec after split => by
      rw [netLoads, netPins_eq, c.members_split split]
    timing := timed
    paths := stored
    capturePath := fun path capture => stored.capturePath_iff }

/-- Two nets that list one pin, two entries for one analysis point and a path with a capture path.
-/
def overlapping : Snapshot where
  corners := ["slow", "fast", "slow"]
  blockPins := [{ name := "clk", direction := .input, clock := true }]
  instances :=
    [{ name := "u1", master := "INV"
       pins := [{ name := "A", direction := .input }, { name := "Y", direction := .output }] }]
  nets := [{ name := "n1", pins := ["clk", "u1/A"] }, { name := "n2", pins := ["u1/Y", "u1/A"] }]
  timing :=
    [{ pin := "u1/A", corner := "slow", arrival := 1 },
      { pin := "u1/A", corner := "slow", arrival := 2 }]
  paths :=
    [{ corner := "fast", stages := [{ pin := "u1/A", arrival := 2 }]
       capture := some { stages := [{ pin := "clk", arrival := 0 }] } }]

theorem ofSnapshot_describes_overlapping :
    ∃ d, ofSnapshot overlapping = .ok d ∧ overlapping.Describes d := by
  obtain ⟨d, loaded⟩ := exists_loaded (s := overlapping) (by decide)
  exact ⟨d, loaded, ofSnapshot_describes loaded⟩

end Design

end TimingExplorer
