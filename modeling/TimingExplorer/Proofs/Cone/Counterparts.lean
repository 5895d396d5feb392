import TimingExplorer.Proofs.Cone.Nodes

/-!
Which node a node of a cone points at. The arcs from all loads of the cone compete for it, and the
first of them stays: that of the first load in order of depth and pin, and of the arcs from one load
the first that leads to another pin of the cone.
-/
namespace TimingExplorer

namespace TimingEngine

variable {engine : TimingEngine} {m : DepthMap} {p q : PinId}

/-- The load that decides on a pin's partner is the first in the cone that offers it one. -/
theorem exists_entry_of_partner (found : engine.partner? m.pins p = some q) :
    ∃ before depth input after, m.entries = before ++ (depth, input) :: after ∧
      engine.partnerAt m.pins p input = some q ∧
      ∀ entry ∈ before, engine.partnerAt m.pins p entry.2 = none := by
  rw [partner?, DepthMap.pins, List.findSome?_map] at found
  obtain ⟨before, ⟨depth, input⟩, after, split, found, passed⟩ :=
    List.findSome?_eq_some_iff.mp found
  exact ⟨before, depth, input, after, split, found, passed⟩

theorem arc_of_partner (found : engine.partner? m.pins p = some q) :
    engine.ArcAmong m.pins p q ∨ engine.ArcAmong m.pins q p := by
  obtain ⟨input, listed, found⟩ := List.exists_of_findSome?_eq_some found
  obtain ⟨_, output, _, _, arc, ends, _⟩ := partnerAt_eq_some listed found
  rcases ends with ⟨rfl, rfl⟩ | ⟨rfl, rfl⟩
  · exact .inl arc
  · exact .inr arc

/-- A pin has a partner if some arc has it for an end. -/
theorem isSome_partner_iff : (engine.partner? m.pins p).isSome = true ↔
    ∃ q, engine.ArcAmong m.pins p q ∨ engine.ArcAmong m.pins q p := by
  constructor
  · intro found
    obtain ⟨q, found⟩ := Option.isSome_iff_exists.mp found
    exact ⟨q, arc_of_partner found⟩
  · rintro ⟨q, arc⟩
    rw [partner?, List.findSome?_isSome_iff]
    rcases arc with arc | arc
    · exact ⟨p, arc.1, (isSome_partnerAt_iff arc.1).mpr ⟨q, arc, .inl rfl⟩⟩
    · exact ⟨q, arc.1, (isSome_partnerAt_iff arc.1).mpr ⟨p, arc, .inr rfl⟩⟩

/-- Where no arc leads to a load, the first of its own arcs decides. -/
theorem firstArc_of_partner (found : engine.partner? m.pins p = some q)
    (unled : ∀ input, ¬ engine.ArcAmong m.pins input p) :
    (engine.instanceArcs p .forward).find? (engine.ArcAmong m.pins p ·) = some q := by
  obtain ⟨input, listed, found⟩ := List.exists_of_findSome?_eq_some found
  obtain ⟨before, output, after, split, arc, ends, passed⟩ := partnerAt_eq_some listed found
  rcases ends with ⟨rfl, rfl⟩ | ⟨rfl, rfl⟩
  · refine List.find?_eq_some_iff_append.mpr ⟨decide_eq_true arc, before, after, split, ?_⟩
    intro output member
    rw [Bool.not_eq_true', decide_eq_false_iff_not]
    intro arc
    exact (passed output member arc).1 rfl
  · exact absurd arc (unled q)

/-- To a pin that is no load the first load in the cone with an arc to it is linked. -/
theorem firstLoad_of_partner (found : engine.partner? m.pins p = some q)
    (driver : engine.isLoadPin p = false) :
    ∃ depth, m.At depth q ∧ ∀ e input, m.At e input → engine.ArcAmong m.pins input p →
      input = q ∨ depth < e ∨ depth = e ∧ q.raw < input.raw := by
  obtain ⟨before, depth, input, after, split, found, passed⟩ := exists_entry_of_partner found
  have here : (depth, input) ∈ m.entries := split ▸ List.mem_append_right _ List.mem_cons_self
  have listed : input ∈ m.pins := List.mem_map_of_mem here
  obtain ⟨_, output, _, _, arc, ends, _⟩ := partnerAt_eq_some listed found
  have same : q = input := by
    rcases ends with ⟨rfl, rfl⟩ | ⟨rfl, rfl⟩
    · rw [arc.2.2.2.1] at driver
      cases driver
    · rfl
  subst same
  refine ⟨depth, DepthMap.mem_entries.mp here, ?_⟩
  intro e other there arc'
  have ordered := m.pairwise_entries
  rw [split, List.pairwise_append, List.pairwise_cons] at ordered
  have member := DepthMap.mem_entries.mpr there
  rw [split, List.mem_append, List.mem_cons] at member
  -- The entries are in order, and none of those before the one that decided offers anything.
  rcases member with earlier | same | later
  · have offered := (isSome_partnerAt_iff arc'.1).mpr ⟨p, arc', .inr rfl⟩
    rw [passed (e, other) earlier] at offered
    cases offered
  · exact .inl (Prod.mk.inj same).2
  · exact .inr (ordered.2.1.1 (e, other) later)

end TimingEngine

namespace NodesByDepth

variable {ctx : Context} {direction : ConeDirection} {m : DepthMap} {l : NodesByDepth}

/-- A node points at the node of its pin's partner. -/
theorem StandsFor.instanceNode_iff (nodes : l.StandsFor ctx m) {x y : NodeId} {n : PathNode}
    (here : l.node? x = some n) : n.instanceNode = some y ↔
      ∃ n', l.node? y = some n' ∧ ctx.engine.partner? m.pins n.pin = some n'.pin := by
  have own : l.nodes.counterpart? x = n.instanceNode := by
    rw [NodeArena.counterpart?, show l.nodes.get? x = some n from here, Option.bind_some]
  rw [← own, nodes.counterpart x n.pin y ((nodes.pin_iff x _).mpr ⟨n, here, rfl⟩)]
  simp only [nodes.pin_iff]
  constructor
  · rintro ⟨q, partner, n', there, rfl⟩
    exact ⟨n', there, partner⟩
  · rintro ⟨n', there, partner⟩
    exact ⟨n'.pin, partner, n', there, rfl⟩

/-- Which node each node of a cone points at. Its pins have one node each. A node points at another
just if some arc among these pins has its pin for an end, and then an arc joins the two: for a load
that no arc leads to it is the first of its own arcs, and for a pin that is no load it comes from
the first load in order of depth and pin. -/
theorem counterparts_of_cone (builds : ctx.BuildsCone direction m l) :
    let Arc := ctx.engine.ArcAmong m.pins
    (∀ p, p ∈ m.pins ↔ ∃ x n, l.node? x = some n ∧ n.pin = p) ∧
    (∀ x y n n', l.node? x = some n → l.node? y = some n' → n.pin = n'.pin → x = y) ∧
    ∀ x n, l.node? x = some n →
      (n.instanceNode.isSome = true ↔ ∃ q, Arc n.pin q ∨ Arc q n.pin) ∧
      ∀ y, n.instanceNode = some y → ∃ n', l.node? y = some n' ∧
        (Arc n.pin n'.pin ∨ Arc n'.pin n.pin) ∧
        (ctx.engine.isLoadPin n.pin = true → (∀ input, ¬ Arc input n.pin) →
          (ctx.engine.instanceArcs n.pin .forward).find? (Arc n.pin ·) = some n'.pin) ∧
        (ctx.engine.isLoadPin n.pin = false →
          ∃ depth, m.At depth n'.pin ∧ ∀ e input, m.At e input → Arc input n.pin →
            input = n'.pin ∨ depth < e ∨ depth = e ∧ n'.pin.raw < input.raw) := by
  intro Arc
  have nodes := builds.standsFor
  refine ⟨nodes.mem_pins_iff, fun _ _ _ _ => nodes.eq_of_pin, ?_⟩
  intro x n here
  constructor
  · rw [← TimingEngine.isSome_partner_iff, Option.isSome_iff_exists, Option.isSome_iff_exists]
    simp only [nodes.instanceNode_iff here]
    constructor
    · rintro ⟨y, n', _, partner⟩
      exact ⟨n'.pin, partner⟩
    · rintro ⟨q, partner⟩
      have listed : q ∈ m.pins := by
        rcases TimingEngine.arc_of_partner partner with arc | arc
        · exact arc.2.1
        · exact arc.1
      obtain ⟨y, n', there, rfl⟩ := (nodes.mem_pins_iff q).mp listed
      exact ⟨y, n', there, partner⟩
  · intro y points
    obtain ⟨n', there, partner⟩ := (nodes.instanceNode_iff here).mp points
    refine ⟨n', there, TimingEngine.arc_of_partner partner, ?_, ?_⟩
    · intro _ unled
      exact TimingEngine.firstArc_of_partner partner unled
    · intro driver
      exact TimingEngine.firstLoad_of_partner partner driver

end NodesByDepth

/-- A gate with two inputs on one net and two outputs. One of the inputs has an arc to itself before
those to the outputs. -/
def Design.gate : Design where
  instances := .ofList [
    { name := "u", master := "SPLIT", pins := [⟨1⟩, ⟨2⟩, ⟨3⟩, ⟨4⟩]
      arcs := [(⟨1⟩, ⟨1⟩), (⟨1⟩, ⟨3⟩), (⟨1⟩, ⟨4⟩), (⟨2⟩, ⟨3⟩)] }]
  pins := .ofList [
    { name := "in", inst := none, terminal := .ofBlock ⟨0⟩, direction := .input
      net := some ⟨0⟩ },
    { name := "A", inst := some ⟨0⟩, terminal := .ofInstance ⟨0⟩, direction := .input
      net := some ⟨0⟩ },
    { name := "B", inst := some ⟨0⟩, terminal := .ofInstance ⟨1⟩, direction := .input
      net := some ⟨0⟩ },
    { name := "Y", inst := some ⟨0⟩, terminal := .ofInstance ⟨2⟩, direction := .output },
    { name := "Z", inst := some ⟨0⟩, terminal := .ofInstance ⟨3⟩, direction := .output }]
  nets := .ofList [{ name := "n", pins := [⟨0⟩, ⟨1⟩, ⟨2⟩] }]

/-- The cone that the net drives: all pins of the gate lie one level from the block's pin. -/
def gateDepths : DepthMap := .ofDepths [(⟨0⟩, 0), (⟨1⟩, 1), (⟨2⟩, 1), (⟨3⟩, 1), (⟨4⟩, 1)]

theorem buildsCone_gate : ∃ l, Design.gate.context.BuildsCone .fanout gateDepths l := by
  refine Context.exists_buildsCone ⟨0⟩ ⟨⟨0⟩, .max⟩ ?_ ⟨_, rfl⟩
  change Design.gate.engine.reach .forward ⟨0⟩ = _
  exact TimingEngine.reach_of_runFor 7 rfl rfl rfl

/-- The first input and the first output point at each other, though the second input has an arc to
that output and the first one to another. -/
theorem NodesByDepth.counterparts_of_cone_gate : ∃ l x y input output,
    Design.gate.context.BuildsCone .fanout gateDepths l ∧
      l.node? x = some input ∧ input.pin = ⟨1⟩ ∧ input.instanceNode = some y ∧
      l.node? y = some output ∧ output.pin = ⟨3⟩ ∧ output.instanceNode = some x := by
  obtain ⟨l, builds⟩ := buildsCone_gate
  obtain ⟨pins, single, points⟩ := counterparts_of_cone builds
  have entries : gateDepths.entries = [(0, ⟨0⟩), (1, ⟨1⟩), (1, ⟨2⟩), (1, ⟨3⟩), (1, ⟨4⟩)] := rfl
  have listed : gateDepths.pins = [⟨0⟩, ⟨1⟩, ⟨2⟩, ⟨3⟩, ⟨4⟩] := rfl
  rw [listed] at pins points
  let Arc := Design.gate.engine.ArcAmong [⟨0⟩, ⟨1⟩, ⟨2⟩, ⟨3⟩, ⟨4⟩]
  have unled (p : PinId) (arc : Arc p ⟨1⟩) : False := by
    have none : ∀ p ∈ [⟨0⟩, ⟨1⟩, ⟨2⟩, ⟨3⟩, ⟨4⟩], ¬ Arc p ⟨1⟩ := by decide
    exact none p arc.1 arc
  have leading (p : PinId) (arc : Arc ⟨3⟩ p ∨ Arc p ⟨3⟩) : p = ⟨1⟩ ∨ p = ⟨2⟩ := by
    have inputs : ∀ p ∈ [⟨0⟩, ⟨1⟩, ⟨2⟩, ⟨3⟩, ⟨4⟩], Arc ⟨3⟩ p ∨ Arc p ⟨3⟩ → p = ⟨1⟩ ∨ p = ⟨2⟩ := by
      decide
    exact inputs p (arc.elim (·.2.1) (·.1)) arc
  obtain ⟨x, input, here, first⟩ := (pins ⟨1⟩).mp (by decide)
  obtain ⟨y, output, there, third⟩ := (pins ⟨3⟩).mp (by decide)
  have forth : input.instanceNode = some y := by
    obtain ⟨leads, arcs⟩ := points x input here
    rw [first] at leads arcs
    obtain ⟨z, target⟩ := Option.isSome_iff_exists.mp (leads.mpr ⟨⟨3⟩, .inl (by decide)⟩)
    obtain ⟨n, found, -, earliest, -⟩ := arcs z target
    have eligible :
        (Design.gate.engine.instanceArcs ⟨1⟩ .forward).find? (Arc ⟨1⟩ ·) = some ⟨3⟩ := by
      decide
    have same := Option.some.inj ((earliest rfl unled).symm.trans eligible)
    rwa [single z y n output found there (same.trans third.symm)] at target
  have back : output.instanceNode = some x := by
    obtain ⟨leads, arcs⟩ := points y output there
    rw [third] at leads arcs
    obtain ⟨z, target⟩ := Option.isSome_iff_exists.mp (leads.mpr ⟨⟨1⟩, .inr (by decide)⟩)
    obtain ⟨n, found, arc, -, least⟩ := arcs z target
    obtain ⟨depth, stored, least⟩ := least rfl
    have earlier := least 1 ⟨1⟩ (DepthMap.mem_entries.mp (by rw [entries]; decide)) (by decide)
    have same : n.pin = ⟨1⟩ := by
      rcases leading n.pin arc with first | second
      · exact first
      · rw [second] at stored earlier
        rw [← DepthMap.mem_entries, entries] at stored
        have level : depth = 1 := by simpa using stored
        rcases earlier with same | lower | ⟨_, lower⟩
        · cases same
        · omega
        · exact absurd lower (by decide)
    rwa [single z x n input found here (same.trans first.symm)] at target
  exact ⟨l, x, y, input, output, builds, here, first, forth, there, third, back⟩

end TimingExplorer
