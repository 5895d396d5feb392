import TimingExplorer.Proofs.Cone.Duality
import TimingExplorer.Proofs.Design.Contents

/-!
Arcs of cells in loaded designs. The ends of a written arc are looked up among all pins of the
design, so an arc may leave its instance. The arcs that a design answers with stay inside instances,
and are the same from both ends, just if no written arc does that.
-/
namespace TimingExplorer.Design

open Snapshot

/-- Arcs join pins of one instance, and each can be followed from both of its ends. -/
def ArcsPaired (d : Design) : Prop := ∀ p q,
  (q ∈ d.instanceArcs p .forward ∨ q ∈ d.instanceArcs p .backward →
    ∃ inst, d.pinCell p = some inst ∧ d.pinCell q = some inst) ∧
  (q ∈ d.instanceArcs p .forward ↔ p ∈ d.instanceArcs q .backward)

/-- No written arc that begins at a pin of an instance leads away from that instance. -/
def ArcsStay (s : Snapshot) (d : Design) : Prop :=
  ∀ arc ∈ s.writtenArcs, ∀ p q inst, d.findPin arc.1 = some p → d.findPin arc.2 = some q →
    d.pinCell p = some inst → d.pinCell q = some inst

variable {s : Snapshot} {d : Design} {p q : PinId} {inst : InstanceId} {direction : Direction}

theorem ArcsLocal.pinCell_of_mem (wired : d.Wired) (inside : d.ArcsLocal)
    (arc : q ∈ d.instanceArcs p direction) :
    ∃ inst, d.pinCell p = some inst ∧ d.pinCell q = some inst := by
  obtain ⟨inst, i, placed, found, joined⟩ := (mem_instanceArcs wired).mp arc
  refine ⟨inst, placed, ?_⟩
  cases direction with
  | forward => exact (CellArc.pinCell wired inside found joined).2
  | backward => exact (CellArc.pinCell wired inside found joined).1

theorem ArcsLocal.paired (wired : d.Wired) (inside : d.ArcsLocal) : d.ArcsPaired := by
  intro p q
  refine ⟨?_, cellHop_reverse wired inside p q⟩
  rintro (forward | backward)
  · exact inside.pinCell_of_mem wired forward
  · exact inside.pinCell_of_mem wired backward

/-- A written arc is among the arcs of the pin where it begins, wherever it leads to. -/
theorem mem_instanceArcs_of_written (wired : d.Wired) (placed : d.pinCell p = some inst)
    (written : (p, q) ∈ d.arcsOf inst) : q ∈ d.instanceArcs p .forward := by
  unfold arcsOf at written
  cases found : d.instances.get? inst with
  | none => simp [found] at written
  | some i =>
    rw [found, Option.elim_some] at written
    have some : i.arcs.isEmpty = false := List.isEmpty_eq_false_iff_exists_mem.mpr ⟨_, written⟩
    refine (mem_instanceArcs wired).mpr ⟨inst, i, placed, found, ?_⟩
    simpa [along, CellArc, some] using written

theorem Netlist.arcsLocal (n : Netlist s d) (stay : ArcsStay s d) : d.ArcsLocal := by
  intro inst i found arc member
  have listed : (arc.1, arc.2) ∈ d.arcsOf inst := by rwa [arcsOf, found]
  obtain ⟨placed, written, here, first, second⟩ := (n.arcs inst arc.1 arc.2).mp listed
  exact ⟨placed, stay written here arc.1 arc.2 inst first second placed⟩

theorem Netlist.mem_instanceArcs (n : Netlist s d) {arc : String × String}
    (written : arc ∈ s.writtenArcs) (first : d.findPin arc.1 = some p)
    (second : d.findPin arc.2 = some q) (placed : d.pinCell p = some inst) :
    q ∈ d.instanceArcs p .forward :=
  mem_instanceArcs_of_written n.built.wired placed
    ((n.arcs inst p q).mpr ⟨placed, arc, written, first, second⟩)

/-- Arcs that name pins of their own instance stay on it. -/
theorem Netlist.arcsStay (n : Netlist s d) (own : ∀ spec ∈ s.instances, ∀ arc ∈ spec.arcs,
    (∃ pin ∈ spec.pins, pin.name = arc.1) ∧ ∃ pin ∈ spec.pins, pin.name = arc.2) :
    ArcsStay s d := by
  intro arc written p q inst first second placed
  obtain ⟨spec, listed, written⟩ := List.mem_flatMap.mp written
  obtain ⟨ends, here, rfl⟩ := List.mem_map.mp written
  obtain ⟨i, position⟩ := List.mem_iff_getElem?.mp listed
  have named {name : String} (own : ∃ pin ∈ spec.pins, pin.name = name) :
      ∃ pin, (spec.fullName name, some ⟨i⟩, pin) ∈ s.namedPins := by
    obtain ⟨pin, member, rfl⟩ := own
    refine ⟨pin, List.mem_append_right _ (List.mem_flatMap.mpr ⟨(spec, i), ?_, ?_⟩)⟩
    · exact List.mem_zipIdx_iff_getElem?.mpr position
    · exact List.mem_map_of_mem member
  obtain ⟨_, begins⟩ := named (own spec listed ends here).1
  obtain ⟨_, leads⟩ := named (own spec listed ends here).2
  rw [n.pinCell_of_named begins first] at placed
  rw [n.pinCell_of_named leads second, placed]

/-- On a loaded design the answers of arcs are sound just if no written arc leaves its instance. -/
theorem arcsPaired_iff (loaded : ofSnapshot s = .ok d) : d.ArcsPaired ↔ ArcsStay s d := by
  have n := (Contents.of_loaded loaded).netlist
  constructor
  · intro paired arc written p q inst first second placed
    have follows := n.mem_instanceArcs written first second placed
    obtain ⟨same, here, there⟩ := (paired p q).1 (.inl follows)
    rwa [← Option.some.inj (here.symm.trans placed)]
  · exact fun stay => (n.arcsLocal stay).paired n.built.wired

/-- What the written form means arcs to be: from one pin of an instance to another. -/
theorem arcsPaired_of_ownPins (loaded : ofSnapshot s = .ok d)
    (own : ∀ spec ∈ s.instances, ∀ arc ∈ spec.arcs,
      (∃ pin ∈ spec.pins, pin.name = arc.1) ∧ ∃ pin ∈ spec.pins, pin.name = arc.2) :
    d.ArcsPaired := by
  have n := (Contents.of_loaded loaded).netlist
  exact (n.arcsLocal (n.arcsStay own)).paired n.built.wired

/-- A port whose name reads as that of a pin of an instance, which has an arc to it. -/
def strayArc : Snapshot where
  blockPins := [{ name := "a/z", direction := .output }]
  instances :=
    [{ name := "a", master := "BUF", pins := [{ name := "x", direction := .input }]
       arcs := [("x", "z")] }]

theorem arcsPaired_iff_strayArc :
    ∃ d, ofSnapshot strayArc = .ok d ∧ (d.ArcsPaired ↔ ArcsStay strayArc d) := by
  obtain ⟨d, loaded⟩ := exists_loaded (s := strayArc) (by decide)
  exact ⟨d, loaded, arcsPaired_iff loaded⟩

/-- The arc to the port is an answer at the pin where it begins, though a port is on no instance. -/
theorem not_arcsPaired_of_loaded : ¬ ∀ s d, ofSnapshot s = .ok d → d.ArcsPaired := by
  intro all
  obtain ⟨d, loaded⟩ := exists_loaded (s := strayArc) (by decide)
  have n := (Contents.of_loaded loaded).netlist
  have port : d.findPin "a/z" = some ⟨0⟩ := (n.findPin _ _).mpr (by decide)
  have pin : d.findPin "a/x" = some ⟨1⟩ := (n.findPin _ _).mpr (by decide)
  have placed : d.pinCell ⟨1⟩ = some ⟨0⟩ := n.pinCell_of_named (.tail _ (.head _)) pin
  have outside : d.pinCell ⟨0⟩ = none := n.pinCell_of_named (.head _) port
  have written : ("a/x", "a/z") ∈ strayArc.writtenArcs := by decide
  have follows := n.mem_instanceArcs written pin port placed
  obtain ⟨inst, _, here⟩ := (all strayArc d loaded ⟨1⟩ ⟨0⟩).1 (.inl follows)
  rw [outside] at here
  cases here

end TimingExplorer.Design
