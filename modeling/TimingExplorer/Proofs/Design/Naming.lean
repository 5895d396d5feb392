import TimingExplorer.Proofs.Design.Contents

/-!
Which snapshots describe a design. Names of one kind are pairwise distinct, and every name that
refers to something is known where it stands. Nothing else ends a loading, and what ends it is the
first name that breaks this in the order of reading.
-/
namespace TimingExplorer

/-! ## Conditions on an item and those before it -/

section Splits

variable {α : Type} {P : List α → α → Prop}

theorem forall_split_snoc {items : List α} {last : α} :
    (∀ passed item rest, items ++ [last] = passed ++ item :: rest → P passed item) ↔
      (∀ passed item rest, items = passed ++ item :: rest → P passed item) ∧ P items last := by
  constructor
  · intro all
    refine ⟨fun passed item rest split => all passed item (rest ++ [last]) ?_,
      all items last [] rfl⟩
    rw [split, List.append_assoc, List.cons_append]
  · rintro ⟨earlier, here⟩ passed item rest split
    cases rest using List.reverseRecOn with
    | nil =>
      obtain ⟨rfl, same⟩ := List.append_inj' split rfl
      exact List.singleton_inj.mp same ▸ here
    | append_singleton rest _ =>
      rw [← List.cons_append, ← List.append_assoc] at split
      exact earlier passed item rest (List.append_inj' split rfl).1

theorem forall_split_mem {items : List α} {Q : α → Prop} :
    (∀ passed item rest, items = passed ++ item :: rest → Q item) ↔ ∀ item ∈ items, Q item := by
  constructor
  · intro all item member
    obtain ⟨passed, rest, split⟩ := List.append_of_mem member
    exact all passed item rest split
  · rintro all passed item rest rfl
    exact all item (List.mem_append_right _ (List.mem_cons_self ..))

variable {taken : List String} {g : α → List String}

/-- Items that bring names are pairwise apart if each is apart from those before it. -/
theorem forall_split_nodup (items : List α) (start : taken.Nodup)
    (each : ∀ passed item, (taken ++ passed.flatMap g).Nodup →
      (P passed item ↔ (taken ++ passed.flatMap g ++ g item).Nodup)) :
    (∀ passed item rest, items = passed ++ item :: rest → P passed item) ↔
      (taken ++ items.flatMap g).Nodup := by
  induction items using List.reverseRecOn with
  | nil => simp [start]
  | append_singleton items last ih =>
    rw [forall_split_snoc, ih, List.flatMap_append, List.flatMap_singleton, ← List.append_assoc]
    constructor
    · rintro ⟨earlier, here⟩
      exact (each items last earlier).mp here
    · intro all
      have earlier := (List.nodup_append.mp all).1
      exact ⟨earlier, (each items last earlier).mpr all⟩

theorem forall_split_unused (items : List α) (f : α → String) (start : taken.Nodup) :
    (∀ passed item rest, items = passed ++ item :: rest → f item ∉ taken ++ passed.map f) ↔
      (taken ++ items.map f).Nodup := by
  simp only [List.map_eq_flatMap]
  refine forall_split_nodup items start fun passed item earlier => ?_
  rw [List.nodup_append_comm, List.singleton_append, List.nodup_cons, and_iff_left earlier]

end Splits

namespace Snapshot

open Design

/-- Both ends of every arc are pins of the block, of the arc's instance or of an earlier one. -/
def ArcsKnown (s : Snapshot) : Prop :=
  ∀ before spec after, s.instances = before ++ spec :: after → ∀ arc ∈ spec.arcs,
    spec.fullName arc.1 ∈ ({ s with instances := before ++ [spec] } : Snapshot).pinNames ∧
      spec.fullName arc.2 ∈ ({ s with instances := before ++ [spec] } : Snapshot).pinNames

/-- Names that a snapshot gives are distinct, and names by which it refers to something are known.
-/
structure WellNamed (s : Snapshot) : Prop where
  blockPins : s.blockPinNames.Nodup
  instances : (s.instances.map (·.name)).Nodup
  instancePins : s.instancePinNames.Nodup
  apart : ∀ name ∈ s.instancePinNames, name ∉ s.blockPinNames
  arcs : s.ArcsKnown
  nets : (s.nets.map (·.name)).Nodup
  members : ∀ spec ∈ s.nets, (∀ name ∈ spec.pins, name ∈ s.pinNames) ∧ spec.pins.Nodup
  timing : ∀ spec ∈ s.timing, spec.pin ∈ s.pinNames ∧ spec.corner ∈ s.corners
  paths : ∀ spec ∈ s.paths, spec.corner ∈ s.corners ∧
    (∀ stage ∈ spec.stages, stage.pin ∈ s.pinNames) ∧
      ∀ captured, spec.capture = some captured →
        ∀ stage ∈ captured.stages, stage.pin ∈ s.pinNames

variable {s : Snapshot}

theorem met_blockPins (specs : List PinSpec) :
    (∀ demand ∈ inOrder blockPinDemands [] specs, demand.Met) ↔
      (specs.map (·.name)).Nodup := by
  have unused := forall_split_unused specs (·.name) List.nodup_nil
  simpa [forall_met_inOrder, blockPinDemands] using unused

theorem met_instance {ports : List String} {before : List InstanceSpec} {spec : InstanceSpec} :
    (∀ demand ∈ instanceDemands ports before spec, demand.Met) ↔
      spec.name ∉ before.map (·.name) ∧
      (∀ passed pin rest, spec.pins = passed ++ pin :: rest → spec.fullName pin.name ∉
        ports ++ before.flatMap InstanceSpec.pinNames ++
          passed.map fun pin => spec.fullName pin.name) ∧
      ∀ arc ∈ spec.arcs,
        spec.fullName arc.1 ∈ ports ++ before.flatMap InstanceSpec.pinNames ++ spec.pinNames ∧
          spec.fullName arc.2 ∈ ports ++ before.flatMap InstanceSpec.pinNames ++ spec.pinNames := by
  rw [instanceDemands, List.forall_mem_cons, List.forall_mem_append, forall_met_inOrder,
    forall_met_inOrder]
  simp only [instancePinDemands, arcDemands, List.forall_mem_cons, List.nil_append,
    Demand.met_unused, Demand.met_pin, List.not_mem_nil, false_imp_iff, implies_true, and_true,
    forall_split_mem]

theorem met_instances (ports : s.blockPinNames.Nodup) :
    (∀ demand ∈ inOrder (instanceDemands s.blockPinNames) [] s.instances, demand.Met) ↔
      (s.instances.map (·.name)).Nodup ∧ s.pinNames.Nodup ∧ s.ArcsKnown := by
  have names := forall_split_unused s.instances (·.name) List.nodup_nil
  have pins := forall_split_nodup s.instances (g := InstanceSpec.pinNames) ports
    fun passed spec earlier => forall_split_unused spec.pins
      (fun pin => spec.fullName pin.name) earlier
  have known (before : List InstanceSpec) (spec : InstanceSpec) :
      ({ s with instances := before ++ [spec] } : Snapshot).pinNames =
        s.blockPinNames ++ before.flatMap InstanceSpec.pinNames ++ spec.pinNames := by
    simp [pinNames, blockPinNames, instancePinNames]
  simp only [List.nil_append] at names
  simp only [forall_met_inOrder, List.nil_append, met_instance, ArcsKnown, known, forall_and]
  rw [names, pins]
  rfl

theorem met_nets : (∀ demand ∈ inOrder (netDemands s.pinNames) [] s.nets, demand.Met) ↔
    (s.nets.map (·.name)).Nodup ∧
      ∀ spec ∈ s.nets, (∀ name ∈ spec.pins, name ∈ s.pinNames) ∧ spec.pins.Nodup := by
  have names := forall_split_unused s.nets (·.name) List.nodup_nil
  have pins (spec : NetSpec) := forall_split_unused spec.pins id List.nodup_nil
  simp only [List.nil_append, List.map_id, id] at names pins
  simp only [forall_met_inOrder, netDemands, memberDemands, List.forall_mem_cons, List.nil_append,
    Demand.met_unused, Demand.met_pin, List.not_mem_nil, false_imp_iff, implies_true, and_true]
  simp only [forall_and, forall_split_mem, names, pins]

theorem met_timing : (∀ demand ∈ inOrder (timingDemands s.pinNames s.corners) [] s.timing,
    demand.Met) ↔ ∀ spec ∈ s.timing, spec.pin ∈ s.pinNames ∧ spec.corner ∈ s.corners := by
  simp [forall_met_inOrder, timingDemands, forall_split_mem]

theorem met_stages {pins : List String} {stages : List StageSpec} :
    (∀ demand ∈ stageDemands pins stages, demand.Met) ↔ ∀ stage ∈ stages, stage.pin ∈ pins := by
  simp [stageDemands]

theorem met_path {pins corners : List String} {before : List PathSpec} {spec : PathSpec} :
    (∀ demand ∈ pathDemands pins corners before spec, demand.Met) ↔
      spec.corner ∈ corners ∧ (∀ stage ∈ spec.stages, stage.pin ∈ pins) ∧
        ∀ captured, spec.capture = some captured → ∀ stage ∈ captured.stages, stage.pin ∈ pins := by
  rw [pathDemands, List.forall_mem_cons, List.forall_mem_append, met_stages]
  cases spec.capture with
  | none => simp
  | some captured => simp [met_stages]

theorem met_paths : (∀ demand ∈ inOrder (pathDemands s.pinNames s.corners) [] s.paths,
    demand.Met) ↔ ∀ spec ∈ s.paths, spec.corner ∈ s.corners ∧
      (∀ stage ∈ spec.stages, stage.pin ∈ s.pinNames) ∧
        ∀ captured, spec.capture = some captured →
          ∀ stage ∈ captured.stages, stage.pin ∈ s.pinNames := by
  simp only [forall_met_inOrder, met_path, forall_split_mem]

/-- A snapshot fulfils what it has to just if its names are in order. -/
theorem met_demands : (∀ demand ∈ s.demands, demand.Met) ↔ s.WellNamed := by
  rw [demands]
  simp only [List.forall_mem_append]
  rw [met_blockPins, met_nets, met_timing, met_paths]
  constructor
  · rintro ⟨ports, instances, nets, timing, paths⟩
    obtain ⟨instances, pins, arcs⟩ := (met_instances ports).mp instances
    obtain ⟨_, instancePins, apart⟩ := List.nodup_append.mp pins
    exact ⟨ports, instances, instancePins,
      fun name inside outside => apart name outside name inside rfl,
      arcs, nets.1, nets.2, timing, paths⟩
  · intro w
    have pins : s.pinNames.Nodup := List.nodup_append.mpr ⟨w.blockPins, w.instancePins,
      fun name outside _ inside same => w.apart _ inside (same ▸ outside)⟩
    exact ⟨w.blockPins, (met_instances w.blockPins).mpr ⟨w.instances, pins, w.arcs⟩,
      ⟨w.nets, w.members⟩, w.timing, w.paths⟩

end Snapshot

namespace Design

open Snapshot

/-- Loading a snapshot never comes to a building step that fails. It has a result just if the names
of the snapshot are in order, and else the error of the first demand that is not met. -/
theorem ofSnapshot_outcome (s : Snapshot) : replay s = .of (ofSnapshot s) ∧
    ((∃ d, ofSnapshot s = .ok d) ↔ s.WellNamed) ∧
      ∀ e, ofSnapshot s = .error e ↔ FirstUnmet s.demands e := by
  obtain ⟨replayed, answers⟩ := reads_snapshot s
  exact ⟨replayed, answers.exists_ok_iff.trans met_demands, fun e => answers.eq_error_iff⟩

end Design

end TimingExplorer
