import TimingExplorer.Proofs.Cone.Reach
import TimingExplorer.Proofs.Design.Building

/-!
Fanin and fanout cones of a built design mirror each other. Every step through a cell or across a
net can be taken backwards, since both ends of it belong to one instance or to one net; hence a pin
lies in the fanout cone of another as deep as that one lies in its fanin cone.
-/
namespace TimingExplorer

namespace Design

variable {d : Design} {p q pin : PinId} {net : NetId} {inst : InstanceId} {i : Instance}
  {direction : Direction}

/-- Every written arc joins two pins of the instance that it is written at. -/
def ArcsLocal (d : Design) : Prop :=
  ∀ inst i, d.instances.get? inst = some i →
    ∀ arc ∈ i.arcs, d.pinCell arc.1 = some inst ∧ d.pinCell arc.2 = some inst

theorem ArcsLocal.of_steps {steps : List BuildStep} (done : Design.empty.buildAll? steps = some d)
    (inside : ∀ input output, .arc input output ∈ steps → d.pinCell input = d.pinCell output) :
    d.ArcsLocal := by
  intro inst i found arc member
  have listed : arc ∈ d.arcsOf inst := by rwa [arcsOf, found]
  obtain ⟨written, placed⟩ := buildAll?_mem_arcsOf done listed
  exact ⟨placed, inside arc.1 arc.2 written ▸ placed⟩

theorem startsArc_iff {data : Pin} : startsArc i data = true ↔
    data.receives = true ∧ (i.sequential = true → data.isClock = true) := by
  cases sequential : i.sequential <;> simp [startsArc, sequential]

/-- A pin where signals enter the arcs of a cell: one that receives, and at a sequential cell a
clock pin. -/
def Enters (d : Design) (i : Instance) (p : PinId) : Prop :=
  ∃ data, d.pins.get? p = some data ∧ data.receives = true ∧
    (i.sequential = true → data.isClock = true)

theorem enters_iff : d.Enters i p ↔ (d.pins.get? p).any (startsArc i) = true := by
  simp only [Enters, Option.any_eq_true, startsArc_iff]

/-- An arc of an instance: a written one if it has any, and else from any pin where signals enter to
any other that drives. -/
def CellArc (d : Design) (i : Instance) (p q : PinId) : Prop :=
  if i.arcs.isEmpty then
    (p ∈ i.pins ∧ d.Enters i p) ∧ (q ∈ i.pins ∧ (d.pins.get? q).any Pin.drives) ∧ p ≠ q
  else (p, q) ∈ i.arcs

theorem netPins_eq (d : Design) (net : NetId) (test : Pin → Bool) :
    d.netPins net test = (d.members net).filter fun pin => (d.pins.get? pin).any test := by
  unfold netPins members
  cases d.nets.get? net <;> rfl

theorem mem_netPins {test : Pin → Bool} :
    pin ∈ d.netPins net test ↔ pin ∈ d.members net ∧ (d.pins.get? pin).any test = true := by
  rw [netPins_eq, List.mem_filter]

theorem mem_cellPins_of_get? (found : d.instances.get? inst = some i) :
    pin ∈ d.cellPins inst ↔ pin ∈ i.pins := by
  rw [cellPins, found]
  rfl

/-- A relation, or the same one taken backwards. -/
def along (arc : PinId → PinId → Prop) : Direction → PinId → PinId → Prop
  | .forward, p, q => arc p q
  | .backward, p, q => arc q p

theorem mem_writtenArcs {arcs : List (PinId × PinId)} :
    q ∈ writtenArcs arcs p direction ↔ along (fun p q => (p, q) ∈ arcs) direction p q := by
  cases direction with
  | forward => simp [writtenArcs, along]
  | backward => simp [writtenArcs, along]

/-- The arcs that an instance answers with at one of its own pins. -/
theorem mem_arcs {data : Pin} (found : d.pins.get? p = some data) (listed : p ∈ i.pins) :
    q ∈ (if i.arcs.isEmpty then d.derivedArcs i p data direction
      else writtenArcs i.arcs p direction) ↔ along (d.CellArc i) direction p q := by
  by_cases derived : i.arcs.isEmpty = true
  · rw [if_pos derived]
    cases direction with
    | forward =>
      by_cases starts : startsArc i data = true <;>
        simp [derivedArcs, along, CellArc, enters_iff, derived, found, listed, starts,
          and_left_comm, @eq_comm _ p q, and_comm]
    | backward =>
      by_cases drives : data.drives = true <;>
        simp [derivedArcs, along, CellArc, enters_iff, derived, found, listed, drives,
          and_left_comm, and_comm]
  · rw [if_neg derived, mem_writtenArcs]
    cases direction <;> simp [along, CellArc, derived]

theorem mem_instanceArcs (wired : d.Wired) : q ∈ d.instanceArcs p direction ↔
    ∃ inst i, d.pinCell p = some inst ∧ d.instances.get? inst = some i ∧
      along (d.CellArc i) direction p q := by
  have listed {data inst i} (found : d.pins.get? p = some data) (placed : data.inst = some inst)
      (cell : d.instances.get? inst = some i) : p ∈ i.pins := by
    refine (mem_cellPins_of_get? cell).mp ((wired.mem_cellPins p inst).mpr ?_)
    rw [pinCell, found]
    exact placed
  unfold instanceArcs pinCell
  cases found : d.pins.get? p with
  | none => simp
  | some data =>
    cases placed : data.inst with
    | none => simp [placed]
    | some inst =>
      cases cell : d.instances.get? inst with
      | none => simp [placed, cell]
      | some i =>
        simp only [Option.bind_some, placed, cell, mem_arcs found (listed found placed cell)]
        simp [cell]

/-- Both ends of an arc belong to its instance. -/
theorem CellArc.pinCell (wired : d.Wired) (inside : d.ArcsLocal)
    (found : d.instances.get? inst = some i) (arc : d.CellArc i p q) :
    d.pinCell p = some inst ∧ d.pinCell q = some inst := by
  unfold CellArc at arc
  split at arc
  · obtain ⟨⟨input, _⟩, ⟨output, _⟩, _⟩ := arc
    exact ⟨(wired.mem_cellPins p inst).mp ((mem_cellPins_of_get? found).mpr input),
      (wired.mem_cellPins q inst).mp ((mem_cellPins_of_get? found).mpr output)⟩
  · exact inside inst i found (p, q) arc

theorem cellHop_reverse (wired : d.Wired) (inside : d.ArcsLocal) (p q : PinId) :
    d.engine.CellHop .forward p q ↔ d.engine.CellHop .backward q p := by
  have forward : d.engine.CellHop .forward p q ↔ _ := mem_instanceArcs wired
  have backward : d.engine.CellHop .backward q p ↔ _ := mem_instanceArcs wired
  rw [forward, backward]
  constructor
  · rintro ⟨inst, i, _, found, arc⟩
    exact ⟨inst, i, (CellArc.pinCell wired inside found arc).2, found, arc⟩
  · rintro ⟨inst, i, _, found, arc⟩
    exact ⟨inst, i, (CellArc.pinCell wired inside found arc).1, found, arc⟩

theorem Wired.pinNet_of_mem_netPins (wired : d.Wired) {test : Pin → Bool}
    (member : pin ∈ d.netPins net test) : d.pinNet pin = some net :=
  (wired.mem_members pin net).mp (mem_netPins.mp member).1

theorem netHop_reverse (wired : d.Wired) (p q : PinId) :
    d.engine.NetHop .forward p q ↔ d.engine.NetHop .backward q p := by
  constructor
  · rintro ⟨net, _, driver, load, differs⟩
    exact ⟨net, wired.pinNet_of_mem_netPins load, load, driver, differs.symm⟩
  · rintro ⟨net, _, load, driver, differs⟩
    exact ⟨net, wired.pinNet_of_mem_netPins driver, driver, load, differs.symm⟩

/-! Walks stay among the pins of the design, so cones are finite. -/

/-- Every end of a written arc is a pin of the design. -/
def ArcsKnown (d : Design) : Prop :=
  ∀ inst i, d.instances.get? inst = some i →
    ∀ arc ∈ i.arcs, d.pins.contains arc.1 = true ∧ d.pins.contains arc.2 = true

theorem ArcsLocal.known (inside : d.ArcsLocal) : d.ArcsKnown := by
  intro inst i found arc member
  obtain ⟨first, second⟩ := inside inst i found arc member
  exact ⟨exists_of_pinCell first, exists_of_pinCell second⟩

namespace ArcsKnown

theorem contains_of_cellArc (arcs : d.ArcsKnown) (wired : d.Wired)
    (found : d.instances.get? inst = some i) (arc : d.CellArc i p q) :
    d.pins.contains p = true ∧ d.pins.contains q = true := by
  have listed {pin} (member : pin ∈ i.pins) : d.pins.contains pin = true :=
    exists_of_pinCell ((wired.mem_cellPins pin inst).mp ((mem_cellPins_of_get? found).mpr member))
  unfold CellArc at arc
  split at arc
  · obtain ⟨⟨input, _⟩, ⟨output, _⟩, _⟩ := arc
    exact ⟨listed input, listed output⟩
  · exact arcs inst i found (p, q) arc

theorem contains_of_within (arcs : d.ArcsKnown) (wired : d.Wired)
    (known : d.pins.contains p = true) (reached : q ∈ d.engine.Within direction p) :
    d.pins.contains q = true := by
  obtain ⟨n, walk⟩ := reached
  cases walk with
  | start => exact known
  | throughCell _ step =>
    obtain ⟨inst, i, _, found, arc⟩ := (mem_instanceArcs wired).mp step
    cases direction with
    | forward => exact (arcs.contains_of_cellArc wired found arc).2
    | backward => exact (arcs.contains_of_cellArc wired found arc).1
  | acrossNet _ step =>
    cases direction with
    | forward =>
      obtain ⟨net, _, _, load, _⟩ := step
      exact exists_of_pinNet (wired.pinNet_of_mem_netPins load)
    | backward =>
      obtain ⟨net, _, _, driver, _⟩ := step
      exact exists_of_pinNet (wired.pinNet_of_mem_netPins driver)

theorem finite_within (arcs : d.ArcsKnown) (wired : d.Wired)
    (known : d.pins.contains p = true) : (d.engine.Within direction p).Finite := by
  have injective : Set.InjOn Id.raw {q : PinId | q.raw < d.pins.size} := by
    rintro ⟨a⟩ _ ⟨b⟩ _ same
    exact congrArg Id.mk same
  have numbers : (Id.raw '' {q : PinId | q.raw < d.pins.size}).Finite :=
    (Set.finite_lt_nat d.pins.size).subset fun _ ⟨_, below, same⟩ => same ▸ below
  refine (numbers.of_finite_image injective).subset fun q reached => ?_
  exact (Arena.contains_iff _ _).mp (arcs.contains_of_within wired known reached)

end ArcsKnown

theorem finite_within (wired : d.Wired) (inside : d.ArcsLocal)
    (known : d.pins.contains p = true) : (d.engine.Within direction p).Finite :=
  inside.known.finite_within wired known

/-- In a design whose written arcs each join two pins of one instance, a pin lies in the fanout cone
of another just as deep as that one lies in its fanin cone. -/
theorem fanout_mirrors_fanin {steps : List BuildStep}
    (done : Design.empty.buildAll? steps = some d)
    (inside : ∀ input output, .arc input output ∈ steps → d.pinCell input = d.pinCell output)
    (attached : (d.pinNet p).isSome = true) (attached' : (d.pinNet q).isSome = true) :
    ∃ fanout fanin, d.engine.fanoutCone p = .ok fanout ∧ d.engine.faninCone q = .ok fanin ∧
      ∀ depth, fanout.At depth q ↔ fanin.At depth p := by
  have wired := Wired.buildAll? done
  have inside := ArcsLocal.of_steps done inside
  have known {pin} (attached : (d.pinNet pin).isSome = true) : d.pins.contains pin = true := by
    obtain ⟨net, found⟩ := Option.isSome_iff_exists.mp attached
    exact exists_of_pinNet found
  obtain ⟨fanout, forward, distances⟩ :=
    TimingEngine.exists_reach (known attached) attached
      (finite_within wired inside (known attached))
  obtain ⟨fanin, backward, distances'⟩ := TimingEngine.exists_reach (known attached') attached'
    (finite_within wired inside (known attached'))
  refine ⟨fanout, fanin, forward, backward, fun depth => ?_⟩
  have same (n : Nat) : d.engine.Distance .forward p q n ↔ d.engine.Distance .backward q p n :=
    Cone.Distance.reverse (cellHop_reverse wired inside) (netHop_reverse wired)
  simp only [distances.at_iff, distances'.at_iff, same]

/-- A buffer with a written arc, whose output moves from one net to another. -/
def movedOutput : List BuildStep := [
  .inst "u" "BUF", .pin ⟨0⟩ "A" .input, .pin ⟨0⟩ "Z" .output, .arc ⟨0⟩ ⟨1⟩,
  .blockPin "in" .input, .blockPin "out" .output,
  .net "first" [⟨2⟩, ⟨0⟩, ⟨1⟩], .net "second" [⟨1⟩, ⟨3⟩]]

theorem fanout_mirrors_fanin_of_movedOutput : ∃ d fanout fanin,
    Design.empty.buildAll? movedOutput = some d ∧
      (∀ input output, .arc input output ∈ movedOutput → d.pinCell input = d.pinCell output) ∧
      (d.pinNet ⟨2⟩).isSome = true ∧ (d.pinNet ⟨3⟩).isSome = true ∧
      d.engine.fanoutCone ⟨2⟩ = .ok fanout ∧ d.engine.faninCone ⟨3⟩ = .ok fanin ∧
      ∀ depth, fanout.At depth ⟨3⟩ ↔ fanin.At depth ⟨2⟩ := by
  obtain ⟨d, done⟩ : ∃ d, Design.empty.buildAll? movedOutput = some d := ⟨_, rfl⟩
  have inside : ∀ input output, .arc input output ∈ movedOutput →
      d.pinCell input = d.pinCell output := by
    obtain rfl := Option.some.inj done
    intro input output written
    simp only [movedOutput, List.mem_cons, reduceCtorEq, BuildStep.arc.injEq, List.not_mem_nil,
      false_or, or_false] at written
    obtain ⟨rfl, rfl⟩ := written
    rfl
  have attached : (d.pinNet ⟨2⟩).isSome = true := by
    obtain rfl := Option.some.inj done
    rfl
  have attached' : (d.pinNet ⟨3⟩).isSome = true := by
    obtain rfl := Option.some.inj done
    rfl
  obtain ⟨fanout, fanin, cones⟩ := fanout_mirrors_fanin done inside attached attached'
  exact ⟨d, fanout, fanin, done, inside, attached, attached', cones⟩

end Design

end TimingExplorer
