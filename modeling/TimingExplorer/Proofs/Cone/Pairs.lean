import TimingExplorer.Proofs.Cone.Duality
import TimingExplorer.Proofs.Cone.Nodes
import TimingExplorer.Proofs.Design.Replay
import TimingExplorer.Proofs.Design.Tables

/-!
Which nodes of a cone are paired where a design is asked: those of the drivers of a net with those
of its loads. A cone holds all that lies across a net in its direction, so there the nets tell how
many partners a node has.
-/
namespace TimingExplorer

namespace Design

variable {d : Design} {p q : PinId} {net : NetId} {a : Pin} {direction : ConeDirection}
  {m : DepthMap} {l : NodesByDepth}

/-- The first pin drives the net that both are on, and the second one loads it. -/
def DrivesInto (d : Design) (p q : PinId) : Prop :=
  ∃ a b net, d.pins.get? p = some a ∧ d.pins.get? q = some b ∧ a.net = some net ∧
    b.net = some net ∧ a.drives = true ∧ b.receives = true

theorem isLoadPin_eq (found : d.pins.get? p = some a) : d.engine.isLoadPin p = !a.drives := by
  change d.isLoadPin p = _
  rw [isLoadPin, found, Option.any_some]

theorem pinNet_eq (found : d.pins.get? p = some a) : d.engine.pinNet p = a.net := by
  change d.pinNet p = _
  rw [pinNet, found, Option.bind_some]

theorem Wired.mem_netPins_iff (wired : d.Wired) {test : Pin → Bool} : q ∈ d.netPins net test ↔
    ∃ b, d.pins.get? q = some b ∧ b.net = some net ∧ test b = true := by
  rw [mem_netPins, wired.mem_members, pinNet]
  cases d.pins.get? q with
  | none => simp
  | some b => simp

theorem Wired.feeds_iff (wired : d.Wired) :
    d.engine.Feeds p q ↔ p ≠ q ∧ d.DrivesInto p q := by
  have load (net : NetId) : q ∈ d.engine.netLoads net ↔ _ := wired.mem_netPins_iff
  simp only [TimingEngine.Feeds, load]
  refine and_congr_right fun _ => ?_
  constructor
  · rintro ⟨driver, net, attached, b, found', attached', receives⟩
    obtain ⟨a, found, attached⟩ := Option.bind_eq_some_iff.mp attached
    rw [isLoadPin_eq found, Bool.not_eq_false'] at driver
    exact ⟨a, b, net, found, found', attached, attached', driver, receives⟩
  · rintro ⟨a, b, net, found, found', attached, attached', drives, receives⟩
    refine ⟨?_, net, (pinNet_eq found).trans attached, b, found', attached', receives⟩
    rw [isLoadPin_eq found, drives, Bool.not_true]

/-- Which nodes of a cone are paired: those on one net which one of their pins drives and the other
one loads. Pairs are mutual, and no node is paired with itself, whatever else is on the net. -/
theorem pairs_of_cone (built : d.Buildable) (builds : d.context.BuildsCone direction m l) :
    (∀ x y n n', l.node? x = some n → l.node? y = some n' → x ≠ y →
      (y ∈ n.paired ↔ d.DrivesInto n.pin n'.pin ∨ d.DrivesInto n'.pin n.pin)) ∧
    ∀ x y n, l.node? x = some n → y ∈ n.paired →
      y ≠ x ∧ ∃ n', l.node? y = some n' ∧ x ∈ n'.paired := by
  have nodes := builds.standsFor
  have wired := built.wired
  constructor
  · intro x y n n' here there differs
    have apart : n.pin ≠ n'.pin := fun same => differs (nodes.eq_of_pin here there same)
    have place := (nodes.pin_iff y n'.pin).mpr ⟨n', there, rfl⟩
    rw [nodes.mem_paired_iff here, place]
    simp only [Option.some.injEq, exists_eq_left']
    change d.engine.Feeds _ _ ∨ d.engine.Feeds _ _ ↔ _
    rw [wired.feeds_iff, wired.feeds_iff, and_iff_right apart, and_iff_right apart.symm]
  · intro x y n here member
    obtain ⟨q, there, feeds⟩ := (nodes.mem_paired_iff here).mp member
    obtain ⟨n', there', rfl⟩ := (nodes.pin_iff y q).mp there
    have place := (nodes.pin_iff x n.pin).mpr ⟨n, here, rfl⟩
    refine ⟨?_, n', there', (nodes.mem_paired_iff there').mpr ⟨n.pin, place, feeds.symm⟩⟩
    rintro rfl
    obtain rfl := Option.some.inj (here.symm.trans there')
    exact feeds.elim (fun feeds => feeds.1 rfl) fun feeds => feeds.1 rfl

/-- A net with two drivers, one of which loads it too, and a load. -/
def sharedNet : List BuildStep := [
  .blockPin "in" .input, .blockPin "io" .inout, .inst "u" "BUF", .pin ⟨0⟩ "A" .input,
  .net "n" [⟨0⟩, ⟨1⟩, ⟨2⟩]]

def shared : Design := (empty.buildAll? sharedNet).getD empty

def sharedAhead : DepthMap := .ofDepths [(⟨0⟩, 0), (⟨1⟩, 1), (⟨2⟩, 1)]

theorem buildsCone_sharedAhead : ∃ l, shared.context.BuildsCone .fanout sharedAhead l := by
  refine Context.exists_buildsCone ⟨0⟩ ⟨⟨0⟩, .max⟩ ?_ ⟨_, rfl⟩
  change shared.engine.reach .forward ⟨0⟩ = _
  exact TimingEngine.reach_of_runFor 5 rfl rfl rfl

/-- The two drivers are paired, since one of them loads the net as well. -/
theorem pairs_of_cone_shared : shared.Buildable ∧ ∃ l x y n n',
    shared.context.BuildsCone .fanout sharedAhead l ∧ l.node? x = some n ∧ n.pin = ⟨0⟩ ∧
      l.node? y = some n' ∧ n'.pin = ⟨1⟩ ∧ x ≠ y ∧ y ∈ n.paired ∧ x ∈ n'.paired := by
  have built : shared.Buildable := ⟨sharedNet, rfl⟩
  obtain ⟨l, builds⟩ := buildsCone_sharedAhead
  obtain ⟨paired_iff, returned⟩ := pairs_of_cone built builds
  have nodes := builds.standsFor
  have listed : sharedAhead.pins = [⟨0⟩, ⟨1⟩, ⟨2⟩] := rfl
  obtain ⟨n, here, first⟩ := (nodes.pin_iff ⟨0⟩ ⟨0⟩).mp (by rw [listed]; rfl)
  obtain ⟨n', there, second⟩ := (nodes.pin_iff ⟨1⟩ ⟨1⟩).mp (by rw [listed]; rfl)
  have differs : (⟨0⟩ : NodeId) ≠ ⟨1⟩ := by decide
  have paired : ⟨1⟩ ∈ n.paired := by
    rw [paired_iff ⟨0⟩ ⟨1⟩ n n' here there differs, first, second]
    exact .inl ⟨_, _, ⟨0⟩, rfl, rfl, rfl, rfl, rfl, rfl⟩
  obtain ⟨_, n'', there', back⟩ := returned ⟨0⟩ ⟨1⟩ n here paired
  obtain rfl := Option.some.inj (there.symm.trans there')
  exact ⟨built, l, ⟨0⟩, ⟨1⟩, n, n', builds, here, first, there, second, differs, paired, back⟩

/-! How many partners a node has. The pins across its net are those that the search looks at. -/

theorem Wired.netHop_iff (wired : d.Wired) :
    d.engine.NetHop .forward p q ↔ d.engine.Feeds p q := by
  have driver (net : NetId) : p ∈ d.engine.netDrivers net ↔ _ := wired.mem_netPins_iff
  have load (net : NetId) : q ∈ d.engine.netLoads net ↔ _ := wired.mem_netPins_iff
  rw [wired.feeds_iff]
  simp only [TimingEngine.NetHop, driver, load]
  constructor
  · rintro ⟨net, _, ⟨a, found, attached, drives⟩, ⟨b, found', attached', receives⟩, differs⟩
    exact ⟨differs.symm, a, b, net, found, found', attached, attached', drives, receives⟩
  · rintro ⟨differs, a, b, net, found, found', attached, attached', drives, receives⟩
    exact ⟨net, (pinNet_eq found).trans attached, ⟨a, found, attached, drives⟩,
      ⟨b, found', attached', receives⟩, differs.symm⟩

theorem Pin.receives_eq (oneWay : a.direction ≠ .inout) : a.receives = !a.drives := by
  unfold Pin.receives Pin.drives
  cases side : a.direction with
  | inout => exact absurd side oneWay
  | input => simp
  | output => simp

/-- A pin that only drives has its partners ahead. -/
theorem Wired.feeds_or_iff_of_driver (wired : d.Wired) (found : d.pins.get? p = some a)
    (drives : a.drives = true) (oneWay : a.direction ≠ .inout) :
    d.engine.Feeds p q ∨ d.engine.Feeds q p ↔ d.engine.NetHop .forward p q := by
  rw [wired.netHop_iff, or_iff_left]
  intro feeds
  obtain ⟨_, _, b, _, _, found', _, _, _, receives⟩ := wired.feeds_iff.mp feeds
  obtain rfl := Option.some.inj (found.symm.trans found')
  rw [Pin.receives_eq oneWay, drives] at receives
  cases receives

/-- A pin that only loads has its partners behind. -/
theorem Wired.feeds_or_iff_of_load (wired : d.Wired) (found : d.pins.get? p = some a)
    (receives : a.receives = true) (oneWay : a.direction ≠ .inout) :
    d.engine.Feeds p q ∨ d.engine.Feeds q p ↔ d.engine.NetHop .backward p q := by
  rw [← netHop_reverse wired, wired.netHop_iff, or_iff_right]
  intro feeds
  obtain ⟨_, b, _, _, found', _, _, _, drives, _⟩ := wired.feeds_iff.mp feeds
  obtain rfl := Option.some.inj (found.symm.trans found')
  rw [Pin.receives_eq oneWay, drives] at receives
  cases receives

theorem Unrepeated.nodup_netNeighbors (once : d.Unrepeated) (way : Direction) (p : PinId) :
    (d.engine.netNeighbors way p).Nodup := by
  have nodup (net : NetId) (test : Pin → Bool) : (d.netPins net test).Nodup := by
    rw [netPins_eq]
    exact (once.members net).filter _
  unfold TimingEngine.netNeighbors
  cases d.engine.pinNet p with
  | none => exact List.nodup_nil
  | some net =>
    cases way with
    | forward =>
      dsimp only
      split
      · exact (nodup net Pin.receives).filter _
      · exact List.nodup_nil
    | backward =>
      dsimp only
      split
      · exact (nodup net Pin.drives).filter _
      · exact List.nodup_nil

/-- The search looks at all loads that the fanout counts. -/
theorem Wired.length_forward (wired : d.Wired) (found : d.pins.get? p = some a)
    (drives : a.drives = true) : (d.engine.netNeighbors .forward p).length = d.engine.fanout p := by
  unfold TimingEngine.netNeighbors TimingEngine.fanout
  cases attached : d.engine.pinNet p with
  | none => rfl
  | some net =>
    have driver : p ∈ d.engine.netDrivers net :=
      wired.mem_netPins_iff.mpr ⟨a, found, (pinNet_eq found).symm.trans attached, drives⟩
    dsimp only
    rw [if_pos (List.contains_iff_mem.mpr driver)]

theorem Wired.length_backward (wired : d.Wired) (found : d.pins.get? p = some a)
    (receives : a.receives = true) (oneWay : a.direction ≠ .inout) :
    (d.engine.netNeighbors .backward p).length =
      a.net.elim 0 fun net => (d.netDrivers net).length := by
  unfold TimingEngine.netNeighbors
  rw [pinNet_eq found]
  cases attached : a.net with
  | none => rfl
  | some net =>
    have load : p ∈ d.engine.netLoads net :=
      wired.mem_netPins_iff.mpr ⟨a, found, attached, receives⟩
    have others : ∀ q ∈ d.netDrivers net, q ≠ p := by
      rintro q driver rfl
      obtain ⟨b, found', _, drives⟩ := wired.mem_netPins_iff.mp driver
      obtain rfl := Option.some.inj (found.symm.trans found')
      rw [Pin.receives_eq oneWay, drives] at receives
      cases receives
    have all : (d.netDrivers net).filter (· ≠ p) = d.netDrivers net :=
      List.filter_eq_self.mpr fun q driver => decide_eq_true (others q driver)
    dsimp only
    rw [if_pos (List.contains_iff_mem.mpr load)]
    exact congrArg List.length all

/-- How many partners a node of a cone has. In a fanout cone a node that only drives is paired with
all the loads that its fanout counts, and in a fanin cone one that only loads with all drivers of
its net. In no cone has a node that only drives more partners than its fanout. -/
theorem pair_counts_of_cone (built : d.Buildable) (builds : d.context.BuildsCone direction m l)
    (x : NodeId) (n : PathNode) (here : l.node? x = some n) :
    ∃ a, d.pins.get? n.pin = some a ∧
      (direction = .fanout → a.drives = true → a.direction ≠ .inout → n.paired.size = n.fanout) ∧
      (direction = .fanin → a.receives = true → a.direction ≠ .inout →
        n.paired.size = a.net.elim 0 fun net => (d.netDrivers net).length) ∧
      (a.drives = true → a.direction ≠ .inout → n.paired.size ≤ n.fanout) := by
  obtain ⟨steps, done⟩ := built
  obtain ⟨wired, once, _⟩ := tables_of_buildAll? done
  have nodes := builds.standsFor
  obtain ⟨seed, _, cone, _⟩ := builds.exists_annotate
  have shows := nodes.shows x n here
  obtain ⟨a, found, _⟩ := Option.map_eq_some_iff.mp shows.terminal
  have listed : n.pin ∈ m.pins := (nodes.mem_pins_iff n.pin).mpr ⟨x, n, here, rfl⟩
  obtain ⟨depth, stored⟩ := DepthMap.mem_pins.mp listed
  have fanout (drives : a.drives = true) :
      (d.engine.netNeighbors .forward n.pin).length = n.fanout := by
    have own : n.fanout = _ := shows.fanout
    have driver : d.context.engine.isLoadPin n.pin = !a.drives := isLoadPin_eq found
    rw [own, driver, drives]
    exact wired.length_forward found drives
  refine ⟨a, found, ?_, ?_, ?_⟩
  -- In its own direction the cone holds all neighbours, otherwise perhaps a part of them.
  · rintro rfl drives oneWay
    rw [← fanout drives]
    refine nodes.size_paired_eq here (fun q => wired.feeds_or_iff_of_driver found drives oneWay) ?_
      (once.nodup_netNeighbors .forward n.pin)
    intro q hop
    exact DepthMap.mem_pins.mpr (TimingEngine.at_of_netHop cone stored hop)
  · rintro rfl receives oneWay
    rw [← wired.length_backward found receives oneWay]
    refine nodes.size_paired_eq here (fun q => wired.feeds_or_iff_of_load found receives oneWay) ?_
      (once.nodup_netNeighbors .backward n.pin)
    intro q hop
    exact DepthMap.mem_pins.mpr (TimingEngine.at_of_netHop cone stored hop)
  · intro drives oneWay
    rw [← fanout drives]
    exact nodes.size_paired_le here fun q => wired.feeds_or_iff_of_driver found drives oneWay

def sharedBehind : DepthMap := .ofDepths [(⟨0⟩, 1), (⟨1⟩, 1), (⟨2⟩, 0)]

theorem buildsCone_sharedBehind : ∃ l, shared.context.BuildsCone .fanin sharedBehind l := by
  refine Context.exists_buildsCone ⟨2⟩ ⟨⟨0⟩, .max⟩ ?_ ⟨_, rfl⟩
  change shared.engine.reach .backward ⟨2⟩ = _
  exact TimingEngine.reach_of_runFor 5 rfl rfl rfl

/-- The pin that only drives feeds the two others, and the one that only loads has both drivers for
partners. -/
theorem pair_counts_of_cone_shared : shared.Buildable ∧
    (∃ l x n, shared.context.BuildsCone .fanout sharedAhead l ∧ l.node? x = some n ∧
      n.pin = ⟨0⟩ ∧ n.paired.size = n.fanout) ∧
    ∃ l x n, shared.context.BuildsCone .fanin sharedBehind l ∧ l.node? x = some n ∧
      n.pin = ⟨2⟩ ∧ n.paired.size = 2 := by
  have built : shared.Buildable := ⟨sharedNet, rfl⟩
  obtain ⟨l, ahead⟩ := buildsCone_sharedAhead
  obtain ⟨x, n, here, first⟩ := (ahead.standsFor.mem_pins_iff ⟨0⟩).mp (by decide)
  obtain ⟨a, found, count, -⟩ := pair_counts_of_cone built ahead x n here
  obtain ⟨l', behind⟩ := buildsCone_sharedBehind
  obtain ⟨x', n', here', third⟩ := (behind.standsFor.mem_pins_iff ⟨2⟩).mp (by decide)
  obtain ⟨a', found', -, count', -⟩ := pair_counts_of_cone built behind x' n' here'
  rw [first] at found
  rw [third] at found'
  obtain rfl := Option.some.inj found
  obtain rfl := Option.some.inj found'
  refine ⟨built, ⟨l, x, n, ahead, here, first, ?_⟩, l', x', n', behind, here', third, ?_⟩
  · exact count rfl rfl (by decide)
  · exact count' rfl rfl (by decide)

end Design

end TimingExplorer
