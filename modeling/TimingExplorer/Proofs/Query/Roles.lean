import TimingExplorer.Proofs.Cone.Nodes
import TimingExplorer.Proofs.Query.Loaded
import TimingExplorer.Proofs.Query.Outcome
import TimingExplorer.Proofs.Record.Collapsing

/-!
The role of a pin. A stage takes over the role of its pin when its path is loaded, a node by itself
or in a cone when it is made. Paths are loaded last, so what a stage has taken over still holds: all
nodes of a pin agree, except that a stage may be written to be on the clock network or off it.
-/
namespace TimingExplorer

/-! ## Nodes of one pin -/

namespace PathNode

variable {ctx : Context} {n m : PathNode} {pin : PinId}

/-- What the nodes of one pin have in common, whatever signal they are about. -/
structure SameRole (n m : PathNode) : Prop where
  pin : n.pin = m.pin
  terminal : n.terminal = m.terminal
  isSink : n.flags.isSink = m.flags.isSink
  fanout : n.fanout = m.fanout

/-- A node has the role that the two sources give to its pin. -/
structure HasRole (ctx : Context) (n : PathNode) : Prop where
  terminal : ctx.database.terminal n.pin = some n.terminal
  isSink : n.flags.isSink = ctx.engine.isLoadPin n.pin
  fanout : n.fanout = if ctx.engine.isLoadPin n.pin then 0 else ctx.engine.fanout n.pin

theorem HasRole.sameRole (first : HasRole ctx n) (second : HasRole ctx m) (same : n.pin = m.pin) :
    n.SameRole m := by
  obtain ⟨terminal, isSink, fanout⟩ := first
  rw [same] at terminal isSink fanout
  exact {
    pin := same
    terminal := Option.some.inj (terminal.symm.trans second.terminal)
    isSink := isSink.trans second.isSink.symm
    fanout := fanout.trans second.fanout.symm }

theorem SameRole.hasRole (same : n.SameRole m) (role : HasRole ctx m) : HasRole ctx n := by
  obtain ⟨pin, terminal, isSink, fanout⟩ := same
  refine ⟨?_, ?_, ?_⟩
  · rw [pin, terminal]
    exact role.terminal
  · rw [pin, isSink]
    exact role.isSink
  · rw [pin, fanout]
    exact role.fanout

theorem ShowsPin.hasRole (shown : ShowsPin ctx pin n) : HasRole ctx n := by
  obtain ⟨rfl, terminal, isSink, _, fanout, _⟩ := shown
  exact ⟨terminal, isSink, fanout⟩

end PathNode

/-! ## Stages as they are written -/

namespace Snapshot

/-- The stages that are written for one side of the record of a path. -/
def PathSpec.sideStages (spec : PathSpec) (config : AnalysisConfig) : Side → List StageSpec
  | .launch => spec.stages
  | .capture =>
    if config.includeCapturePaths then (spec.capture.map (·.stages)).getD [] else []

end Snapshot

namespace Design

open PathNode QueryService Snapshot

variable {s : Snapshot} {d : Design} {spec : StageSpec} {stage : PathStage} {offset slack : Double}
  {n : PathNode}

namespace StageAsWritten

theorem named (written : d.StageAsWritten spec stage) : d.findPin spec.pin = some stage.pin := by
  obtain ⟨pin, p, found, here, rfl⟩ := written
  exact found

theorem isClock (written : d.StageAsWritten spec stage) :
    stage.isClock = spec.clock.getD (d.isClockPin stage.pin) := by
  obtain ⟨pin, p, found, here, rfl⟩ := written
  rw [isClockPin, here, Option.any_some]

theorem isSink (written : d.StageAsWritten spec stage) :
    stage.isSink = d.isLoadPin stage.pin := by
  obtain ⟨pin, p, found, here, rfl⟩ := written
  rw [isLoadPin, here, Option.any_some]

/-- A stage was read last of all, so its node has the role that the pin has in the end. -/
theorem hasRole (written : d.StageAsWritten spec stage)
    (shown : ShowsStage d.context offset slack stage n) : HasRole d.context n := by
  have isSink : stage.isSink = d.context.engine.isLoadPin stage.pin := written.isSink
  refine ⟨?_, ?_, ?_⟩
  · rw [shown.pin]
    exact shown.terminal
  · rw [shown.pin, shown.flags]
    exact isSink
  · rw [shown.pin, shown.fanout, isSink]

end StageAsWritten

end Design

/-! ## Lists that belong together -/

section Related

variable {α β γ : Type} {R : α → β → Prop} {Q : β → γ → Prop}

theorem forall₂_comp {xs : List α} {ys : List β} {zs : List γ} (first : List.Forall₂ R xs ys)
    (second : List.Forall₂ Q ys zs) : List.Forall₂ (fun x z => ∃ y, R x y ∧ Q y z) xs zs := by
  induction first generalizing zs with
  | nil =>
    cases second
    exact .nil
  | cons here _ ih =>
    cases second with
    | cons here' later => exact .cons ⟨_, here, here'⟩ (ih later)

theorem exists_getElem?_of_forall₂ {xs : List α} {ys : List β} {y : β} {i : Nat}
    (related : List.Forall₂ R xs ys) (found : ys[i]? = some y) : ∃ x, xs[i]? = some x ∧ R x y := by
  obtain ⟨below, rfl⟩ := List.getElem?_eq_some_iff.mp found
  have below' : i < xs.length := by rwa [related.length_eq]
  exact ⟨xs[i], List.getElem?_eq_getElem below', List.Forall₂.get related below' below⟩

end Related

theorem QueryService.analysisPointWith_eq {ctx : Context} {s : QueryService}
    {config : AnalysisConfig} (bound : s.context = .ok ctx) :
    s.analysisPointWith config = pointOf ctx.engine config := by
  unfold context at bound
  cases engine : s.engine with
  | none => simp [engine] at bound
  | some source =>
    cases database : s.database with
    | none => simp [engine, database] at bound
    | some layout =>
      simp only [engine, database, Except.ok.injEq] at bound
      rw [analysisPointWith, requireEngine, engine, ← bound]
      rfl

namespace Design

open PathNode QueryService Snapshot

variable {s : Snapshot} {d : Design} {service : QueryService} {config : AnalysisConfig}
  {n n' : PathNode} {r : PathRecord} {clock : Option Bool}

/-! ## Nodes in different places -/

/-- A node agrees with the nodes that its pin has by itself. Whether it is on the clock network may
be written instead. -/
def Agrees (service : QueryService) (clock : Option Bool) (n : PathNode) : Prop :=
  ∀ config point, service.analysisPointWith config = .ok point →
    ∃ m, service.timingNodeWith config n.pin = .ok m ∧ n.SameRole m ∧
      n.flags.isClock = clock.getD m.flags.isClock

/-- The nodes of a side stand, in order, for the written stages that are kept, and agree with their
pins. -/
def ShowsWritten (d : Design) (service : QueryService) (clockExpanded : Bool)
    (specs : List StageSpec) (nodes : List PathNode) : Prop :=
  ∃ (stages : List PathStage) (positions : List Nat), List.Forall₂ d.StageAsWritten specs stages ∧
    positions.Pairwise (· < ·) ∧
    (∀ i, i ∈ positions ↔ i < stages.length ∧ (clockExpanded = true ∨ IsEndOrData stages i)) ∧
    List.Forall₂ (fun i n => ∃ spec, specs[i]? = some spec ∧ d.findPin spec.pin = some n.pin ∧
      Agrees service spec.clock n) positions nodes

/-- A query on a design that is bound on both sides gives a node: that of a pin, one of a path
record or one of a cone. -/
inductive Returns (d : Design) (n : PathNode) : Prop where
  | alone (service : QueryService) (config : AnalysisConfig) (pin : PinId)
      (bound : service.context = .ok d.context)
      (answered : service.timingNodeWith config pin = .ok n)
  | record (service : QueryService) (config : AnalysisConfig) (starts : PinSet)
      (throughs : List PinSet) (ends : PinSet) (records : List PathRecord) (r : PathRecord)
      (side : Side) (bound : service.context = .ok d.context)
      (answered : service.timingPathsWith config starts throughs ends = .ok records)
      (listed : r ∈ records) (shown : n ∈ r.sideNodes side)
  | cone (direction : ConeDirection) (m : DepthMap) (l : NodesByDepth) (x : NodeId)
      (builds : d.context.BuildsCone direction m l) (found : l.node? x = some n)

theorem agrees_of_hasRole (bound : service.context = .ok d.context) (role : HasRole d.context n)
    (isClock : n.flags.isClock = clock.getD (d.isClockPin n.pin)) : Agrees service clock n := by
  intro config point resolved
  rw [analysisPointWith_eq bound] at resolved
  have known : d.pins.contains n.pin = true := by
    obtain ⟨p, here, _⟩ := Option.map_eq_some_iff.mp role.terminal
    rw [← Arena.isSome_get?, here, Option.isSome_some]
  obtain ⟨m, made⟩ := exists_ofPin.mpr (mapped_context_iff.mpr known)
  have shown := showsPin_ofPin made
  refine ⟨m, (timingNodeWith_eq bound resolved n.pin).trans made, ?_, ?_⟩
  · exact role.sameRole shown.hasRole shown.same.symm
  · rw [isClock, shown.isClock]
    rfl

theorem showsWritten_of_shows (bound : service.context = .ok d.context) {clockExpanded : Bool}
    {specs : List StageSpec} {stages : List PathStage} {nodes : List PathNode}
    {offset slack : Double} (written : List.Forall₂ d.StageAsWritten specs stages)
    (shown : List.Forall₂ (ShowsStage d.context offset slack) (keptStages clockExpanded stages)
      nodes) : d.ShowsWritten service clockExpanded specs nodes := by
  obtain ⟨positions, ascending, kept, places⟩ := exists_keptPositions clockExpanded stages
  have placed : List.Forall₂ (fun i stage => stages[i]? = some stage) positions
      (keptStages clockExpanded stages) := by
    rw [← List.forall₂_eq_eq_eq, List.forall₂_map_left_iff, List.forall₂_map_right_iff] at places
    exact (places.imp fun stage i same => same.symm).flip
  refine ⟨stages, positions, written, ascending, kept, (forall₂_comp placed shown).imp ?_⟩
  rintro i n ⟨stage, place, here⟩
  obtain ⟨spec, listed, written⟩ := exists_getElem?_of_forall₂ written place
  refine ⟨spec, listed, here.pin ▸ written.named, ?_⟩
  apply agrees_of_hasRole bound (written.hasRole here)
  rw [here.pin, here.flags]
  exact written.isClock

/-- A path that a search finds is one that is written itself. -/
theorem Stored.exists_launch (stored : Stored s d) {search : PathSearch} {path : PathId}
    (found : path ∈ d.findPaths search) : ∃ spec stages,
      s.pathEntries[path.raw]? = some (.launch spec) ∧
      d.engine.pathStages path = some stages ∧
        List.Forall₂ d.StageAsWritten spec.stages stages := by
  obtain ⟨p, taken⟩ := mem_findPaths.mp found
  obtain ⟨here, fits⟩ := mem_ranking.mp (List.mem_of_mem_take taken)
  have walked : d.engine.pathStages path = some p.stages := congrArg (Option.map _) here
  obtain ⟨entry, listed, holds⟩ := stored.exists_entry here
  cases entry with
  | launch spec =>
    obtain ⟨corner, stages, _, written, rfl⟩ := holds
    exact ⟨spec, stages, listed, walked, written⟩
  | capture spec captured =>
    obtain ⟨corner, stages, _, _, rfl⟩ := holds
    simp [StoredPath.fits] at fits

/-- The capture path of a path shows the stages that are written for it. -/
theorem Stored.exists_captureStages (stored : Stored s d) {path : PathId} {spec : PathSpec}
    {captured : CaptureSpec} (listed : s.pathEntries[path.raw]? = some (.launch spec))
    (own : spec.capture = some captured) : ∃ capture stages,
      d.engine.capturePath path = some capture ∧
      d.engine.pathStages capture.path = some stages ∧
      List.Forall₂ d.StageAsWritten captured.stages stages := by
  let next : PathId := ⟨path.raw + 1⟩
  have listed' : s.pathEntries[next.raw]? = some (.capture spec captured) :=
    getElem?_capture listed own
  obtain ⟨p, here, holds⟩ := stored.exists_path listed'
  obtain ⟨corner, stages, _, written, rfl⟩ := holds
  exact ⟨⟨next, captured.offset⟩, stages,
    stored.capturePath_iff.mpr ⟨spec, captured, listed, own, rfl⟩, congrArg (Option.map _) here,
    written⟩

theorem showsWritten_nil {clockExpanded : Bool} : d.ShowsWritten service clockExpanded [] [] := by
  refine ⟨[], [], .nil, .nil, fun i => ?_, .nil⟩
  simp

/-- Both sides of the record of a path show what is written for them. -/
theorem showsWritten_of_describes (stored : Stored s d) (bound : service.context = .ok d.context)
    {path : PathId} {spec : PathSpec} {stages : List PathStage}
    (listed : s.pathEntries[path.raw]? = some (.launch spec))
    (walked : d.engine.pathStages path = some stages)
    (written : List.Forall₂ d.StageAsWritten spec.stages stages)
    (described : Describes d.context config path r) (side : Side) :
    d.ShowsWritten service config.clockExpanded (spec.sideStages config side)
      (r.sideNodes side) := by
  cases side with
  | launch =>
    obtain ⟨stages', walked', shown⟩ := showsPath_iff.mp described.launch
    obtain rfl := Option.some.inj (walked.symm.trans walked')
    exact showsWritten_of_shows bound written shown
  | capture =>
    rw [PathSpec.sideStages]
    cases included : config.includeCapturePaths with
    | false =>
      rw [show r.sideNodes .capture = [] from described.noCapture (.inl included)]
      exact showsWritten_nil
    | true =>
      cases own : spec.capture with
      | none =>
        have none : d.context.engine.capturePath path = none := by
          apply Option.eq_none_iff_forall_ne_some.mpr
          intro capture linked
          obtain ⟨spec', captured, listed', own', _⟩ := stored.capturePath_iff.mp linked
          obtain rfl := PathEntry.launch.inj (Option.some.inj (listed.symm.trans listed'))
          cases own.symm.trans own'
        rw [show r.sideNodes .capture = [] from described.noCapture (.inr none)]
        exact showsWritten_nil
      | some captured =>
        obtain ⟨capture, stages', linked, walked', written'⟩ :=
          stored.exists_captureStages listed own
        obtain ⟨stages'', walked'', shown⟩ :=
          showsPath_iff.mp (described.capture capture included linked)
        obtain rfl := Option.some.inj (walked'.symm.trans walked'')
        exact showsWritten_of_shows bound written' shown

/-- Every record of an answer is that of a written path, and the query has an analysis point. -/
theorem showsWritten_of_answer (loaded : ofSnapshot s = .ok d)
    (bound : service.context = .ok d.context) {starts : PinSet} {throughs : List PinSet}
    {ends : PinSet} {records : List PathRecord}
    (answered : service.timingPathsWith config starts throughs ends = .ok records) :
    (∃ point, service.analysisPointWith config = .ok point) ∧
      ∀ r ∈ records, ∃ path spec, s.pathEntries[path.raw]? = some (.launch spec) ∧
        buildRecord d.context config path = .ok r ∧
        ∀ side, d.ShowsWritten service config.clockExpanded (spec.sideStages config side)
          (r.sideNodes side) := by
  have stored := (Contents.of_loaded loaded).stored
  constructor
  · rw [analysisPointWith_eq bound, exists_ok_iff]
    intro e failed
    rw [timingPathsWith_of_unresolved bound failed] at answered
    cases answered
  · intro r member
    obtain ⟨ctx, point, path, bound', found, built⟩ := exists_buildRecord answered member
    obtain rfl := Except.ok.inj (bound.symm.trans bound')
    obtain ⟨spec, stages, listed, walked, written⟩ := stored.exists_launch found
    exact ⟨path, spec, listed, built,
      showsWritten_of_describes stored bound listed walked written (buildRecord_describes built)⟩

theorem showsPin_of_timingNodeWith {pin : PinId} (bound : service.context = .ok d.context)
    (answered : service.timingNodeWith config pin = .ok n) : ShowsPin d.context pin n := by
  obtain ⟨ctx, bound', answered⟩ := bind_eq_ok.mp answered
  obtain ⟨point, _, made⟩ := bind_eq_ok.mp answered
  obtain rfl := Except.ok.inj (bound.symm.trans bound')
  exact showsPin_ofPin made

theorem hasRole_of_cone {direction : ConeDirection} {m : DepthMap} {l : NodesByDepth} {x : NodeId}
    (builds : d.context.BuildsCone direction m l) (found : l.node? x = some n) :
    HasRole d.context n ∧ n.flags.isClock = d.isClockPin n.pin := by
  have shown := builds.standsFor.shows x n found
  exact ⟨⟨shown.terminal, shown.isSink, shown.fanout⟩, shown.isClock⟩

/-- Whatever query gives a node, the node has the role of its pin. -/
theorem Returns.hasRole (loaded : ofSnapshot s = .ok d) (returned : d.Returns n) :
    HasRole d.context n := by
  cases returned with
  | alone service config pin bound answered =>
    exact (showsPin_of_timingNodeWith bound answered).hasRole
  | record service config starts throughs ends records r side bound answered listed shown =>
    obtain ⟨⟨point, resolved⟩, records⟩ := showsWritten_of_answer loaded bound answered
    obtain ⟨path, spec, _, _, written⟩ := records r listed
    obtain ⟨stages, positions, _, _, _, nodes⟩ := written side
    obtain ⟨_, _, spec, _, _, agrees⟩ := exists_of_forall₂_of_mem nodes shown
    obtain ⟨m, alone, same, _⟩ := agrees config point resolved
    exact same.hasRole (showsPin_of_timingNodeWith bound alone).hasRole
  | cone direction m l x builds found => exact (hasRole_of_cone builds found).1

/-- The nodes of one pin agree on the terminal, on the side of the net and on the loads, in whatever
record, place or cone they stand. They agree on the clock too, unless the stage of a path is written
to be on it or off it: each node of a record stands for one written stage of its path. -/
theorem roles_agree (loaded : ofSnapshot s = .ok d) (service : QueryService)
    (bound : service.context = .ok d.context) :
    (∀ config starts throughs ends records,
        service.timingPathsWith config starts throughs ends = .ok records →
        (∃ point, service.analysisPointWith config = .ok point) ∧
        ∀ r ∈ records, ∃ path spec, s.pathEntries[path.raw]? = some (.launch spec) ∧
          buildRecord d.context config path = .ok r ∧
          ∀ side, d.ShowsWritten service config.clockExpanded (spec.sideStages config side)
            (r.sideNodes side)) ∧
      (∀ direction m l, d.context.BuildsCone direction m l →
        ∀ x n, l.node? x = some n → Agrees service none n) ∧
      ∀ n n', d.Returns n → d.Returns n' → n.pin = n'.pin → n.SameRole n' := by
  refine ⟨fun config starts throughs ends records => showsWritten_of_answer loaded bound, ?_, ?_⟩
  · intro direction m l builds x n found
    obtain ⟨role, isClock⟩ := hasRole_of_cone builds found
    exact agrees_of_hasRole bound role isClock
  · intro n n' first second same
    exact (first.hasRole loaded).sameRole (second.hasRole loaded) same

/-- An output that is written to be on the clock, and a clock that is written to be off it where it
is the capture path. -/
def rewrittenClock : Snapshot where
  corners := ["typ"]
  blockPins :=
    [{ name := "clk", direction := .input, clock := true }, { name := "out", direction := .output }]
  nets := [{ name := "net", pins := ["clk", "out"] }]
  paths :=
    [{ corner := "typ"
       stages :=
         [{ pin := "clk", arrival := 0 }, { pin := "out", clock := some true, arrival := 1 }]
       capture := some { stages := [{ pin := "clk", clock := some false, arrival := 0 }] } }]

def rewrittenPath (d : Design) : QueryResult (List PathRecord) :=
  (ofContext d.context).timingPathsWith
    { includeUnconstrained := true, includeCapturePaths := true } ∅ [] ∅

/-- The pins of the nodes of a side and whether they are on the clock. -/
def clocks (side : Side) (r : PathRecord) : List (PinId × Bool) :=
  (r.sideNodes side).map fun n => (n.pin, n.flags.isClock)

theorem roles_agree_rewrittenClock : ∃ d r n m, ofSnapshot rewrittenClock = .ok d ∧
    rewrittenPath d = .ok [r] ∧ clocks .launch r = [(⟨0⟩, true), (⟨1⟩, true)] ∧
      clocks .capture r = [(⟨0⟩, false)] ∧ n ∈ r.launchNodes ∧ n.flags.isClock = true ∧
      (ofContext d.context).timingNodeWith {} ⟨1⟩ = .ok m ∧ m.flags.isClock = false ∧
      n.SameRole m := by
  obtain ⟨d, loaded⟩ := exists_loaded (s := rewrittenClock) (by decide)
  have facts : (ofSnapshot rewrittenClock).toOption.bind (fun d =>
      (rewrittenPath d).toOption.map (List.map fun r => (clocks .launch r, clocks .capture r))) =
      some [([(⟨0⟩, true), (⟨1⟩, true)], [(⟨0⟩, false)])] := by decide +kernel
  have alone : (ofSnapshot rewrittenClock).toOption.bind (fun d =>
      ((ofContext d.context).timingNodeWith {} ⟨1⟩).toOption.map fun m => m.flags.isClock) =
      some false := by decide +kernel
  rw [loaded] at facts alone
  obtain ⟨records, answered, facts⟩ : ∃ records, rewrittenPath d = .ok records ∧
      records.map (fun r => (clocks .launch r, clocks .capture r)) =
        [([(⟨0⟩, true), (⟨1⟩, true)], [(⟨0⟩, false)])] := by
    cases answered : rewrittenPath d with
    | error e => simp [Except.toOption, answered] at facts
    | ok records => exact ⟨records, rfl, by simpa [Except.toOption, answered] using facts⟩
  obtain ⟨m, made, offClock⟩ : ∃ m, (ofContext d.context).timingNodeWith {} ⟨1⟩ = .ok m ∧
      m.flags.isClock = false := by
    cases made : (ofContext d.context).timingNodeWith {} ⟨1⟩ with
    | error e => simp [Except.toOption, made] at alone
    | ok m => exact ⟨m, rfl, by simpa [Except.toOption, made] using alone⟩
  obtain ⟨r, rest, rfl, both, none⟩ := List.map_eq_cons_iff.mp facts
  obtain rfl := List.map_eq_nil_iff.mp none
  obtain ⟨launch, capture⟩ := Prod.mk.inj both
  have second : (⟨1⟩, true) ∈ clocks .launch r := launch ▸ by simp
  obtain ⟨n, shown, same⟩ := List.mem_map.mp second
  obtain ⟨pin, onClock⟩ := Prod.mk.inj same
  obtain ⟨_, _, agree⟩ := roles_agree loaded (ofContext d.context) rfl
  refine ⟨d, r, n, m, loaded, answered, launch, capture, shown, onClock, made, offClock, ?_⟩
  apply agree n m (.record _ _ _ _ _ _ r .launch rfl answered List.mem_cons_self shown)
    (.alone _ _ _ rfl made)
  exact pin.trans (showsPin_of_timingNodeWith rfl made).same.symm

end Design

end TimingExplorer
