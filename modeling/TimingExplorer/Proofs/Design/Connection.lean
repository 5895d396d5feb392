import TimingExplorer.Proofs.Design.Netlist

/-!
Loading nets. A net takes its pins from the nets before it, so what it is left with are the pins
that no later net lists.
-/
namespace TimingExplorer

theorem eraseDups_of_nodup {α : Type} [DecidableEq α] {xs : List α} (nodup : xs.Nodup) :
    xs.eraseDups = xs := by
  induction xs using List.reverseRecOn with
  | nil => rfl
  | append_singleton xs x ih =>
    obtain ⟨others, _, apart⟩ := List.nodup_append.mp nodup
    have new : x ∉ xs := fun old => apart x old x (List.mem_singleton_self x) rfl
    rw [eraseDups_snoc, if_neg new, ih others]

namespace Indexes

variable {kind : IdKind} {names : List String} {find : String → Option (Id kind)}

theorem mem_filterMap (indexed : Indexes names find) {name : String} {id : Id kind}
    (found : find name = some id) (listed : List String) :
    id ∈ listed.filterMap find ↔ name ∈ listed := by
  rw [List.mem_filterMap]
  constructor
  · rintro ⟨other, member, found'⟩
    rwa [indexed.inj found found']
  · exact fun member => ⟨name, member, found⟩

/-- Leaving names out before they are looked up, or what they lead to afterwards. -/
theorem filter_filterMap (indexed : Indexes names find) (listed without : List String) :
    (listed.filterMap find).filter (· ∉ without.filterMap find) =
      (listed.filter (· ∉ without)).filterMap find := by
  induction listed with
  | nil => rfl
  | cons name rest ih =>
    cases found : find name with
    | none => by_cases out : name ∈ without <;> simpa [found, out] using ih
    | some id =>
      have same := indexed.mem_filterMap found without
      rw [List.filterMap_cons_some found, List.filter_cons, List.filter_cons]
      by_cases out : name ∈ without
      · rw [if_neg (by simpa only [decide_eq_true_eq] using not_not_intro (same.mpr out)),
          if_neg (by simpa only [decide_eq_true_eq] using not_not_intro out), ih]
      · rw [if_pos (decide_eq_true (mt same.mp out)), if_pos (decide_eq_true out),
          List.filterMap_cons_some found, ih]

end Indexes

namespace Snapshot

/-- The pins of a net that none of the later nets lists. -/
def NetSpec.keptPins (spec : NetSpec) (later : List NetSpec) : List String :=
  spec.pins.filter fun name => later.all fun other => name ∉ other.pins

theorem NetSpec.keptPins_snoc (spec last : NetSpec) (later : List NetSpec) :
    spec.keptPins (later ++ [last]) = (spec.keptPins later).filter (· ∉ last.pins) := by
  simp [keptPins, List.filter_filter, List.all_append, Bool.and_comm]

end Snapshot

namespace Design

open Snapshot

/-- The nets are those of the snapshot, each with the pins that it was left with. -/
structure Connected (s : Snapshot) (d : Design) : Prop where
  names : d.nets.toList.map (·.name) = s.nets.map (·.name)
  members : ∀ net spec, s.nets[net.raw]? = some spec →
    d.members net = (spec.keptPins (s.nets.drop (net.raw + 1))).filterMap d.findPin

variable {s : Snapshot} {d e : Design} {pin : PinId} {name : String} {pins : List PinId}

theorem Connected.size_nets (c : Connected s d) : d.nets.size = s.nets.length := by
  rw [← Arena.length_toList, ← List.length_map, c.names, List.length_map]

theorem Connected.nextId_nets (c : Connected s d) : d.nets.nextId = ⟨s.nets.length⟩ :=
  congrArg Id.mk c.size_nets

theorem Connected.members_split (c : Connected s d) {before after : List NetSpec} {spec : NetSpec}
    (split : s.nets = before ++ spec :: after) :
    d.members ⟨before.length⟩ = (spec.keptPins after).filterMap d.findPin := by
  simp [c.members ⟨before.length⟩ spec (by simp [split]), split]

theorem Connected.of_bare (bare : d.Bare) : Connected { s with nets := [] } d where
  names := by rw [bare.nets]; rfl
  members net spec written := by cases written

theorem answers_netMembers {names : List String} (indexed : Indexes names d.findPin)
    (before rest : List String) (nodup : (before.filterMap d.findPin).Nodup) :
    Answers (inOrder (memberDemands names) before rest)
      (fun members => members = (before ++ rest).filterMap d.findPin ∧ members.Nodup)
      (d.netMembers (before.filterMap d.findPin) rest) := by
  induction rest generalizing before with
  | nil => exact .done ⟨by rw [List.append_nil], nodup⟩
  | cons name rest ih =>
    rw [netMembers, inOrder, memberDemands, List.cons_append, List.singleton_append]
    refine (reads_lookUpPin indexed name).answers.bind fun pin found => ?_
    have listed := indexed.mem_filterMap found before
    by_cases old : name ∈ before
    · rw [if_pos (List.contains_iff_mem.mpr (listed.mpr old))]
      exact .refuse (.unused name before) (not_not_intro old)
    · have new := mt listed.mp old
      rw [if_neg (mt List.contains_iff_mem.mp new)]
      have extended : (before ++ [name]).filterMap d.findPin =
          before.filterMap d.findPin ++ [pin] := by
        simp [found]
      have still : (before.filterMap d.findPin ++ [pin]).Nodup :=
        List.nodup_append.mpr ⟨nodup, List.nodup_singleton pin, fun a member b last same =>
          new (List.mem_singleton.mp last ▸ same ▸ member)⟩
      refine .pass old ?_
      simpa [extended] using ih (before ++ [name]) (extended ▸ still)

/-- What a new net leaves as it is. -/
theorem exists_addNet (d : Design) (name : String) (moved : List PinId) : ∃ nets pins,
    (d.addNet name moved).2 = { d with nets, pins } ∧
      nets.toList.map (·.name) = d.nets.toList.map (·.name) ++ [name] ∧
      ∀ pin, (pins.get? pin).map Pin.entry = (d.pins.get? pin).map Pin.entry := by
  obtain ⟨nets, pins, result, _, names, views⟩ :=
    exists_attachAll d d.nets.nextId moved.eraseDups
  refine ⟨nets.push { name, pins := moved.eraseDups }, pins, ?_, ?_, views Pin.entry fun _ _ => rfl⟩
  · simp only [addNet, result]
  · rw [Arena.toList_push, List.map_append, Arena.map_toList_eq _ names]
    rfl

theorem Connected.addNet {before : List NetSpec} {spec : NetSpec}
    (c : Connected { s with nets := before } d) (n : Netlist s d)
    (listed : pins = spec.pins.filterMap d.findPin) (nodup : pins.Nodup) :
    Connected { s with nets := before ++ [spec] } (d.addNet spec.name pins).2 := by
  obtain ⟨nets, cells, result, names, _⟩ := exists_addNet d spec.name pins
  have known : ∀ pin ∈ pins, d.pins.contains pin = true := by
    rw [listed]
    intro pin member
    obtain ⟨name, _, found⟩ := List.mem_filterMap.mp member
    exact n.contains found
  have wired := n.built.wired
  constructor
  · rw [result, List.map_append, ← c.names]
    exact names
  · intro net written here
    have find : (d.addNet spec.name pins).2.findPin = d.findPin := by rw [result]; rfl
    rw [members_addNet known fun pin net => (wired.mem_members pin net).mp, find, c.nextId_nets]
    simp only [List.getElem?_append] at here
    -- An earlier net loses what the new one lists. The new one is the last and loses nothing.
    split at here
    · next earlier =>
      have old : net ≠ ⟨before.length⟩ := by
        rintro rfl
        exact Nat.lt_irrefl _ earlier
      rw [if_neg old, c.members net written here, listed, n.findPin.filter_filterMap,
        List.drop_append_of_le_length earlier, NetSpec.keptPins_snoc]
    · next later =>
      obtain ⟨i⟩ := net
      rw [List.getElem?_singleton] at here
      split at here
      · next first =>
        obtain rfl := Option.some.inj here
        have same : i = before.length := by
          dsimp only at first later
          omega
        subst same
        simp [NetSpec.keptPins, listed ▸ eraseDups_of_nodup nodup, listed]
      · cases here

theorem reads_net {before : List NetSpec} (n : Netlist s d)
    (c : Connected { s with nets := before } d) (spec : NetSpec) :
    Reads (inOrder (memberDemands s.pinNames) [] spec.pins)
      (fun e => Netlist s e ∧ Connected { s with nets := before ++ [spec] } e ∧
        e.timing = d.timing ∧ e.paths = d.paths)
      (d.replayNet spec) (d.loadNet spec) := by
  have members := Reads.of (answers_netMembers n.findPin [] spec.pins List.nodup_nil)
  refine members.bindDone fun pins ⟨listed, nodup⟩ => ?_
  obtain ⟨nets, cells, result, _, views⟩ := exists_addNet d spec.name pins
  have known : pins.all d.pins.contains = true := by
    rw [List.all_eq_true, listed]
    intro pin member
    obtain ⟨name, _, found⟩ := List.mem_filterMap.mp member
    exact n.contains found
  have done : d.buildAll? [.net spec.name pins] = some (d.addNet spec.name pins).2 := by
    rw [buildAll?_singleton, build?, addNet?, if_pos known]
    rfl
  refine .perform n.built done ⟨?_, c.addNet n listed nodup, ?_, ?_⟩
  · refine n.of_views (n.built.grow done) ?_ (fun pin => ?_) ?_ ?_ ?_
    all_goals rw [result]
    exact views pin
  all_goals rw [result]

theorem reads_nets {before : List NetSpec} {names : Std.TreeSet String} (n : Netlist s d)
    (c : Connected { s with nets := before } d)
    (listed : ∀ name, names.contains name = true ↔ name ∈ before.map (·.name))
    (rest : List NetSpec) :
    Reads (inOrder (netDemands s.pinNames) before rest)
      (fun e => Netlist s e ∧ Connected { s with nets := before ++ rest } e ∧
        e.timing = d.timing ∧ e.paths = d.paths)
      (d.replayNets names rest) (d.loadNets names rest) := by
  induction rest generalizing before names d with
  | nil => exact .done ⟨n, by rwa [List.append_nil], rfl, rfl⟩
  | cons spec rest ih =>
    rw [replayNets, loadNets, inOrder, netDemands, List.cons_append]
    refine .unused (listed _) fun _ => (reads_net n c spec).bind fun e read => ?_
    obtain ⟨n, c, timing, paths⟩ := read
    have listed' (name : String) : (names.insert spec.name).contains name = true ↔
        name ∈ (before ++ [spec]).map (·.name) := by
      rw [Std.TreeSet.contains_insert, Bool.or_eq_true, listed, List.map_append, List.mem_append,
        beq_iff_eq, Std.LawfulEqCmp.compare_eq_iff_eq, List.map_singleton, List.mem_singleton]
      exact or_comm.trans (or_congr_right eq_comm)
    have later := ih n c listed'
    rw [List.append_assoc, List.singleton_append, timing, paths] at later
    exact later

end Design

end TimingExplorer
