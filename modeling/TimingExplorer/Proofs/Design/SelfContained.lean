import TimingExplorer.Proofs.Cone.Annotation
import TimingExplorer.Proofs.Cone.Duality
import TimingExplorer.Proofs.Design.Fidelity
import TimingExplorer.Proofs.Design.Tables

/-!
A loaded design is self-contained: whatever one of its objects names is part of it, the ends of an
arc, the pins of the stages of a path and its capture path.
-/
namespace TimingExplorer

namespace Snapshot

/-- Behind a path with a capture path, that is stored next. -/
theorem getElem?_capture {paths : List PathSpec} {i : Nat} {spec : PathSpec}
    {captured : CaptureSpec}
    (here : (paths.flatMap PathSpec.entries)[i]? = some (.launch spec))
    (linked : spec.capture = some captured) :
    (paths.flatMap PathSpec.entries)[i + 1]? = some (.capture spec captured) := by
  induction paths generalizing i with
  | nil => cases here
  | cons first rest ih =>
    rw [List.flatMap_cons, PathSpec.entries] at here ⊢
    cases i with
    | zero =>
      obtain rfl : first = spec := PathEntry.launch.inj (Option.some.inj here)
      rw [linked]
      rfl
    | succ i =>
      cases own : first.capture with
      | none =>
        rw [own] at here
        exact ih here
      | some other =>
        rw [own] at here
        cases i with
        | zero => cases Option.some.inj here
        | succ i => exact ih here

end Snapshot

namespace Design

open Snapshot

/-- Whatever an object of a design names is part of the design. -/
structure SelfContained (d : Design) : Prop where
  wired : d.Wired
  mapped : d.Mapped
  arcs : d.ArcsKnown
  stages : ∀ path p, d.paths.get? path = some p →
    ∀ stage ∈ p.stages, d.pins.contains stage.pin = true
  captures : ∀ path p capture, d.paths.get? path = some p → p.capture = some capture →
    d.paths.contains capture.path = true

variable {s : Snapshot} {d : Design} {pin : PinId} {path : PathId} {p : StoredPath}

theorem mapped_context_iff : d.context.Mapped pin ↔ d.pins.contains pin = true := by
  have terminal : d.context.database.terminal pin = (d.pins.get? pin).map (·.terminal) := rfl
  have known : d.context.engine.containsPin pin = d.pins.contains pin := rfl
  rw [Context.Mapped, terminal, known, Option.isSome_map, Arena.isSome_get?, and_self]

theorem Buildable.mapped (built : d.Buildable) : d.Mapped := by
  obtain ⟨steps, done⟩ := built
  exact (tables_of_buildAll? done).2.2

theorem Netlist.arcsKnown (n : Netlist s d) : d.ArcsKnown := by
  intro inst i found arc member
  have listed : (arc.1, arc.2) ∈ d.arcsOf inst := by rwa [arcsOf, found]
  obtain ⟨_, written, _, first, second⟩ := (n.arcs inst arc.1 arc.2).mp listed
  exact ⟨n.contains first, n.contains second⟩

theorem Stored.exists_entry (stored : Stored s d) (found : d.paths.get? path = some p) :
    ∃ entry, s.pathEntries[path.raw]? = some entry ∧ d.PathAsWritten path entry p := by
  have known : path.raw < s.pathEntries.length := by
    rw [← stored.size, ← Arena.contains_iff, ← Arena.isSome_get?, found, Option.isSome_some]
  have written := List.getElem?_eq_getElem known
  obtain ⟨p', found', holds⟩ := stored.exists_path written
  obtain rfl := Option.some.inj (found.symm.trans found')
  exact ⟨_, written, holds⟩

/-- A stored path shows the stages of a written one or of a capture path. -/
theorem PathAsWritten.exists_stages {entry : PathEntry} (holds : d.PathAsWritten path entry p) :
    ∃ specs, List.Forall₂ d.StageAsWritten specs p.stages := by
  cases entry with
  | launch spec =>
    obtain ⟨_, stages, _, written, rfl⟩ := holds
    exact ⟨spec.stages, written⟩
  | capture spec captured =>
    obtain ⟨_, stages, _, written, rfl⟩ := holds
    exact ⟨captured.stages, written⟩

theorem contains_of_written {specs : List StageSpec} {stages : List PathStage}
    (written : List.Forall₂ d.StageAsWritten specs stages) :
    ∀ stage ∈ stages, d.pins.contains stage.pin = true := by
  induction written with
  | nil => exact fun _ member => absurd member List.not_mem_nil
  | cons first _ ih =>
    obtain ⟨pin, data, _, here, rfl⟩ := first
    refine List.forall_mem_cons.mpr ⟨?_, ih⟩
    rw [← Arena.isSome_get?, here, Option.isSome_some]

theorem Stored.contains_of_stage (stored : Stored s d) (found : d.paths.get? path = some p) :
    ∀ stage ∈ p.stages, d.pins.contains stage.pin = true := by
  obtain ⟨_, _, holds⟩ := stored.exists_entry found
  obtain ⟨specs, written⟩ := holds.exists_stages
  exact contains_of_written written

theorem Stored.contains_of_capture (stored : Stored s d) {capture : CapturePath}
    (found : d.paths.get? path = some p) (linked : p.capture = some capture) :
    d.paths.contains capture.path = true := by
  have answered : d.engine.capturePath path = some capture := by
    show (d.paths.get? path).bind (·.capture) = some capture
    rw [found, Option.bind_some, linked]
  obtain ⟨spec, captured, written, own, rfl⟩ := stored.capturePath_iff.mp answered
  have next := getElem?_capture written own
  rw [Arena.contains_iff, stored.size]
  exact (List.getElem?_eq_some_iff.mp next).1

theorem SelfContained.of_loaded (loaded : ofSnapshot s = .ok d) : d.SelfContained := by
  obtain ⟨n, c, timed, stored⟩ := Contents.of_loaded loaded
  exact {
    wired := n.built.wired
    mapped := n.built.mapped
    arcs := n.arcsKnown
    stages := fun path p found => stored.contains_of_stage found
    captures := fun path p capture found linked => stored.contains_of_capture found linked }

end Design

end TimingExplorer
