import TimingExplorer.Proofs.Design.Fitting
import TimingExplorer.Proofs.Design.Ranking
import TimingExplorer.Proofs.Query.Records
import TimingExplorer.Proofs.Record.Stages

/-!
Records keep to their request. A design picks paths by their stages; a record shows the stages as
nodes, perhaps with the clock collapsed. Read from the nodes, the walk still starts and ends at the
pins asked for, and with the clock shown in full it still passes the groups between them in order.
-/
namespace TimingExplorer

/-- What a request sees of a stage. -/
def PathStage.mark (stage : PathStage) : PinId × Bool := (stage.pin, stage.isClock)

def PathNode.mark (n : PathNode) : PinId × Bool := (n.pin, n.flags.isClock)

section Marks

variable {ctx : Context} {offset slack : Double} {stages : List PathStage} {nodes : List PathNode}
  {clockExpanded : Bool}

theorem map_mark_of_shows (shown : List.Forall₂ (ShowsStage ctx offset slack) stages nodes) :
    nodes.map PathNode.mark = stages.map PathStage.mark := by
  induction shown with
  | nil => rfl
  | cons first _ ih =>
    rw [List.map_cons, List.map_cons, ih, PathNode.mark, PathStage.mark, first.pin, first.flags]

theorem map_pin_of_marks (marks : nodes.map PathNode.mark = stages.map PathStage.mark) :
    nodes.map (·.pin) = stages.map (·.pin) := by
  have pins := congrArg (List.map Prod.fst) marks
  rwa [List.map_map, List.map_map] at pins

theorem getLast?_of_marks
    (marks : nodes.map PathNode.mark = (keptStages clockExpanded stages).map PathStage.mark) :
    nodes.getLast?.map PathNode.mark = stages.getLast?.map PathStage.mark := by
  rw [← List.getLast?_map, marks, List.getLast?_map, getLast?_keptStages]

theorem getElem?_clockEndIndex_of_marks
    (marks : nodes.map PathNode.mark = (keptStages clockExpanded stages).map PathStage.mark) :
    nodes[(max (clockEndIndex nodes - 1) 0).toNat]?.map PathNode.mark =
      (walkStart (·.isClock) stages).map PathStage.mark := by
  calc nodes[(max (clockEndIndex nodes - 1) 0).toNat]?.map PathNode.mark
    _ = (walkStart (·.flags.isClock) nodes).map PathNode.mark := by rw [getElem?_clockEndIndex]
    _ = walkStart Prod.snd (nodes.map PathNode.mark) :=
      (walkStart_map Prod.snd PathNode.mark nodes).symm
    _ = walkStart Prod.snd ((keptStages clockExpanded stages).map PathStage.mark) := by rw [marks]
    _ = (walkStart (·.isClock) (keptStages clockExpanded stages)).map PathStage.mark :=
      walkStart_map Prod.snd PathStage.mark _
    _ = (walkStart (·.isClock) stages).map PathStage.mark := by rw [walkStart_keptStages]

end Marks

namespace QueryService

/-- A record keeps to a request, as far as its nodes tell. -/
structure Honours (clockExpanded : Bool) (starts : PinSet) (throughs : List PinSet) (ends : PinSet)
    (r : PathRecord) : Prop where
  launched : r.launchNodes ≠ []
  ends : ends.isEmpty = false → ∃ n, r.launchNodes.getLast? = some n ∧ n.pin ∈ ends
  starts : starts.isEmpty = false →
    ∃ n, r.launchNodes[(max (r.launchClockEnd - 1) 0).toNat]? = some n ∧ n.pin ∈ starts
  throughs : clockExpanded = true → ∃ positions : List Nat, positions.Pairwise (· < ·) ∧
    List.Forall₂ (fun group i => ∃ n, r.launchNodes[i]? = some n ∧ n.pin ∈ group) throughs positions

variable {d : Design} {s : QueryService} {config : AnalysisConfig} {search : PathSearch}
  {starts ends : PinSet} {throughs : List PinSet} {path : PathId} {p : Design.StoredPath}
  {ctx : Context} {r : PathRecord} {records : List PathRecord}

theorem Describes.map_mark (described : Describes ctx config path r) (bound : ctx.engine = d.engine)
    (found : d.paths.get? path = some p) : r.launchNodes.map PathNode.mark =
      (keptStages config.clockExpanded p.stages).map PathStage.mark := by
  obtain ⟨stages, walked, shown⟩ := showsPath_iff.mp described.launch
  have stored : ctx.engine.pathStages path = some p.stages := by
    rw [bound]
    exact congrArg (Option.map _) found
  obtain rfl := Option.some.inj (stored.symm.trans walked)
  exact map_mark_of_shows shown

/-- A record of a stored path that fits a search keeps to the search. -/
theorem Describes.honours (described : Describes ctx config path r) (bound : ctx.engine = d.engine)
    (found : d.paths.get? path = some p) (fits : p.fits search = true) :
    Honours config.clockExpanded search.starts search.throughs search.ends r := by
  have marks := described.map_mark bound found
  obtain ⟨⟨first, started, accepted⟩, ⟨last, ended, accepted'⟩, met⟩ := p.of_fits fits
  -- The search looks at all stages and the record at those kept; both ends are the same.
  obtain ⟨n, final, same⟩ : ∃ n, r.launchNodes.getLast? = some n ∧ n.mark = last.mark :=
    Option.map_eq_some_iff.mp ((getLast?_of_marks marks).trans (congrArg (Option.map _) ended))
  have start := getElem?_clockEndIndex_of_marks marks
  rw [← described.launchClockEnd] at start
  obtain ⟨n', initial, same'⟩ :=
    Option.map_eq_some_iff.mp (start.trans (congrArg (Option.map _) started))
  constructor
  · intro empty
    rw [empty] at final
    cases final
  · intro asked
    refine ⟨n, final, ?_⟩
    rw [(Prod.mk.inj same).1]
    exact Design.StoredPath.mem_of_accepts accepted' asked
  · intro asked
    refine ⟨n', initial, ?_⟩
    rw [(Prod.mk.inj same').1]
    exact Design.StoredPath.mem_of_accepts accepted asked
  · intro expanded
    -- Only now does every stage have its node, so that positions carry over.
    rw [expanded] at marks
    obtain ⟨positions, ascending, inside⟩ := Design.StoredPath.exists_passes met
    have pins : r.launchNodes.map (·.pin) = p.stages.map (·.pin) := map_pin_of_marks marks
    rw [← pins] at inside
    refine ⟨positions, ascending, inside.imp ?_⟩
    rintro group i ⟨pin, listed, member⟩
    rw [List.getElem?_map] at listed
    obtain ⟨n, here, rfl⟩ := Option.map_eq_some_iff.mp listed
    exact ⟨n, here, member⟩

theorem engine_of_context {engine : TimingEngine} (both : s.context = .ok ctx)
    (bound : s.engine = some engine) : ctx.engine = engine := by
  rw [context, bound] at both
  cases database : s.database with
  | none => simp [database] at both
  | some database =>
    simp only [database, Except.ok.injEq] at both
    rw [← both]

/-- Each record of an answer is that of a path which the engine finds. -/
theorem exists_describes (answered : s.timingPathsWith config starts throughs ends = .ok records)
    (member : r ∈ records) : ∃ ctx point path, s.context = .ok ctx ∧
      path ∈ ctx.engine.findPaths { starts, throughs, ends, point
                                    maxPaths := config.maxPathCount
                                    unconstrained := config.includeUnconstrained } ∧
      Describes ctx config path r := by
  obtain ⟨ctx, point, path, bound, found, built⟩ := exists_buildRecord answered member
  exact ⟨ctx, point, path, bound, found, buildRecord_describes built⟩

/-- Every record that a query on a design answers with keeps to the request. -/
theorem timingPathsWith_honours (bound : s.engine = some d.engine)
    (answered : s.timingPathsWith config starts throughs ends = .ok records) :
    ∀ r ∈ records, Honours config.clockExpanded starts throughs ends r := by
  intro r member
  obtain ⟨ctx, point, path, both, found, described⟩ := exists_describes answered member
  have engine := engine_of_context both bound
  rw [engine] at found
  obtain ⟨p, taken⟩ := Design.mem_findPaths.mp found
  obtain ⟨stored, fits⟩ := Design.mem_ranking.mp (List.mem_of_mem_take taken)
  exact described.honours engine stored fits

/-- A path from a clock port through a buffer to a register and on to a port. The first four stages
are on the clock network. -/
def clockedPath : Design where
  corners := .ofList ["typ"]
  pins := .ofList ((List.range 6).map fun i =>
    { name := "p", inst := none, terminal := .ofBlock ⟨i⟩, direction := .inout })
  paths := .ofList [
    { point := ⟨⟨0⟩, .max⟩, searchable := true
      summary := { startClock := none, endClock := none, slack := 0, arrival := 0, required := 0
                   pathDelay := 0 }
      stages := (List.range 6).map fun i =>
        { pin := ⟨i⟩, isClock := i < 4, isRising := false, isSink := i % 2 = 1, arrival := 0
          delay := 0, slew := 0, load := 0 } }]

def fromRegister (clockExpanded : Bool) : QueryResult (List PathRecord) :=
  (ofContext clockedPath.context).timingPathsWith { clockExpanded, includeUnconstrained := true }
    ((∅ : PinSet).insert ⟨3⟩) [(∅ : PinSet).insert ⟨1⟩, (∅ : PinSet).insert ⟨4⟩]
    ((∅ : PinSet).insert ⟨5⟩)

theorem exists_fromRegister (clockExpanded : Bool)
    (one : (fromRegister clockExpanded).toOption.map List.length = some 1) :
    ∃ r, fromRegister clockExpanded = .ok [r] := by
  cases answered : fromRegister clockExpanded with
  | error e => simp [answered, Except.toOption] at one
  | ok records =>
    simp only [answered, Except.toOption, Option.map_some, Option.some.injEq] at one
    obtain ⟨r, rfl⟩ := List.length_eq_one_iff.mp one
    exact ⟨r, rfl⟩

theorem timingPathsWith_honours_fromRegister :
    (∃ r, fromRegister true = .ok [r] ∧
      Honours true ((∅ : PinSet).insert ⟨3⟩) [(∅ : PinSet).insert ⟨1⟩, (∅ : PinSet).insert ⟨4⟩]
        ((∅ : PinSet).insert ⟨5⟩) r) ∧
    ∃ r, fromRegister false = .ok [r] ∧
      Honours false ((∅ : PinSet).insert ⟨3⟩) [(∅ : PinSet).insert ⟨1⟩, (∅ : PinSet).insert ⟨4⟩]
        ((∅ : PinSet).insert ⟨5⟩) r := by
  have bound : (ofContext clockedPath.context).engine = some clockedPath.engine := rfl
  constructor
  · obtain ⟨r, answered⟩ := exists_fromRegister true (by decide +kernel)
    exact ⟨r, answered, timingPathsWith_honours bound answered r (List.mem_singleton_self r)⟩
  · obtain ⟨r, answered⟩ := exists_fromRegister false (by decide +kernel)
    exact ⟨r, answered, timingPathsWith_honours bound answered r (List.mem_singleton_self r)⟩

/-- Collapsing drops the two stages inside the clock run, and the start is found all the same. -/
example : (fromRegister false).toOption.map (List.map fun r =>
    (r.launchNodes.map (·.pin), r.launchClockEnd)) = some [([⟨0⟩, ⟨3⟩, ⟨4⟩, ⟨5⟩], 2)] := by
  decide +kernel

end QueryService

end TimingExplorer
