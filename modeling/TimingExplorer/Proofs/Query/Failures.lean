import TimingExplorer.Proofs.Cone.Annotation
import TimingExplorer.Proofs.Failure
import TimingExplorer.Proofs.Record.Stages
import TimingExplorer.Query

/-!
Path queries that fail. A walk fails if its path is unknown or if a stage that is kept has no
terminal, and a record fails if its path has no summary or if one of its walks fails. Of several
records, and of several stages, the first that fails decides on the error.
-/
namespace TimingExplorer

variable {ctx : Context} {config : AnalysisConfig} {path : PathId} {offset : Double}
  {clockExpanded : Bool} {stages : List PathStage} {e : QueryError}

/-! ## Walks -/

namespace PathStage

/-- A stage without a terminal. -/
inductive Unmapped (db : DesignDatabase) (stage : PathStage) : QueryError → Prop where
  | bare (missing : db.terminal stage.pin = none) : Unmapped db stage (.unmappedPin stage.pin)

theorem unmapped_iff {db : DesignDatabase} {stage : PathStage} : stage.Unmapped db e ↔
    db.terminal stage.pin = none ∧ e = .unmappedPin stage.pin := by
  constructor
  · rintro ⟨missing⟩
    exact ⟨missing, rfl⟩
  · rintro ⟨missing, rfl⟩
    exact .bare missing

end PathStage

namespace PathRecord

theorem resolve_eq_error {db : DesignDatabase} : resolve db stages = .error e ↔
    FirstFailure (PathStage.Unmapped db) stages e := by
  induction stages with
  | nil => simp [resolve, not_firstFailure_nil]
  | cons stage rest ih =>
    rw [resolve, firstFailure_cons]
    cases mapped : db.terminal stage.pin with
    | none => simp [PathStage.unmapped_iff, mapped, eq_comm]
    | some terminal => simp [PathStage.unmapped_iff, mapped, map_eq_error, ih]

/-- Why a walk along a path fails. -/
inductive WalkFailure (ctx : Context) (path : PathId) (clockExpanded : Bool) :
    QueryError → Prop where
  | unknown (absent : ctx.engine.pathStages path = none) :
      WalkFailure ctx path clockExpanded (.unknownPath path)
  | stage {stages kept : List PathStage} {e : QueryError}
      (found : ctx.engine.pathStages path = some stages)
      (which : Kept clockExpanded stages kept)
      (failed : FirstFailure (PathStage.Unmapped ctx.database) kept e) :
      WalkFailure ctx path clockExpanded e

theorem stageNodes_eq_error : stageNodes ctx path offset clockExpanded = .error e ↔
    WalkFailure ctx path clockExpanded e := by
  rw [stageNodes]
  constructor
  · intro failed
    split at failed
    · next absent =>
      obtain rfl := Except.error.inj failed
      exact .unknown absent
    · next stages found =>
      exact .stage found (kept_iff.mpr rfl) (resolve_eq_error.mp (map_eq_error.mp failed))
  · rintro (absent | ⟨found, which, failed⟩)
    · rw [absent]
    · obtain rfl := kept_iff.mp which
      rw [found]
      exact map_eq_error.mpr (resolve_eq_error.mpr failed)

end PathRecord

/-! ## Records -/

namespace QueryService

open PathRecord

/-- Why there is no record of a path. Its own walk comes before that of its capture path. -/
inductive RecordFailure (ctx : Context) (config : AnalysisConfig) (path : PathId) :
    QueryError → Prop where
  | summary (absent : ctx.engine.pathSummary path = none) :
      RecordFailure ctx config path (.unknownPath path)
  | launch {summary : PathSummary} {e : QueryError}
      (known : ctx.engine.pathSummary path = some summary)
      (failed : WalkFailure ctx path config.clockExpanded e) : RecordFailure ctx config path e
  | capture {summary : PathSummary} {clock : CapturePath} {e : QueryError}
      (known : ctx.engine.pathSummary path = some summary)
      (walked : ∀ other, ¬ WalkFailure ctx path config.clockExpanded other)
      (included : config.includeCapturePaths = true)
      (linked : ctx.engine.capturePath path = some clock)
      (failed : WalkFailure ctx clock.path config.clockExpanded e) : RecordFailure ctx config path e

theorem buildRecord_of_summary {summary : PathSummary}
    (known : ctx.engine.pathSummary path = some summary) : buildRecord ctx config path =
      (empty.applySummary summary).populateLaunch ctx path config.clockExpanded >>= fun launched =>
        match (if config.includeCapturePaths then ctx.engine.capturePath path else none) with
        | none => .ok launched.pairCommonNodes.computeClockEnds.spreadSlack
        | some capture =>
          launched.populateCapture ctx capture.path capture.offset config.clockExpanded >>=
            fun captured => .ok captured.pairCommonNodes.computeClockEnds.spreadSlack := by
  rw [buildRecord, known]
  rfl

theorem populate_eq_error {r : PathRecord} {db : DesignDatabase} {side : Side} :
    (stageNodes ctx path offset clockExpanded).map (r.installSide db side) = .error e ↔
      WalkFailure ctx path clockExpanded e := by
  rw [map_eq_error, stageNodes_eq_error]

theorem buildRecord_eq_error : buildRecord ctx config path = .error e ↔
    RecordFailure ctx config path e := by
  constructor
  · intro failed
    cases known : ctx.engine.pathSummary path with
    | none =>
      rw [buildRecord, known] at failed
      obtain rfl := Except.error.inj failed
      exact .summary known
    | some summary =>
      rw [buildRecord_of_summary known] at failed
      rcases bind_eq_error.mp failed with failed | ⟨launched, walked, failed⟩
      · exact .launch known (populate_eq_error.mp failed)
      · split at failed
        · cases failed
        · next clock linked =>
          obtain ⟨included, linked⟩ := Option.ite_none_right_eq_some.mp linked
          have passed := exists_ok_iff.mp ⟨launched, walked⟩
          rcases bind_eq_error.mp failed with failed | ⟨_, _, failed⟩
          · exact .capture known (fun other => mt populate_eq_error.mpr (passed other)) included
              linked (populate_eq_error.mp failed)
          · cases failed
  · rintro (absent | ⟨known, failed⟩ | ⟨known, walked, included, linked, failed⟩)
    · rw [buildRecord, absent]
    · rw [buildRecord_of_summary known]
      exact bind_eq_error.mpr (.inl (populate_eq_error.mpr failed))
    · obtain ⟨launched, done⟩ :=
        exists_ok_iff.mpr fun other => mt populate_eq_error.mp (walked other)
      rw [buildRecord_of_summary known]
      refine bind_eq_error.mpr (.inr ⟨launched, done, ?_⟩)
      rw [if_pos included, linked]
      exact bind_eq_error.mpr (.inl (populate_eq_error.mpr failed))

theorem buildRecords_eq_error {paths : List PathId} : buildRecords ctx config paths = .error e ↔
    FirstFailure (RecordFailure ctx config) paths e := by
  induction paths with
  | nil => simp [buildRecords, not_firstFailure_nil]
  | cons path rest ih =>
    have built : (∃ record, buildRecord ctx config path = .ok record) ↔
        ∀ other, ¬ RecordFailure ctx config path other := by
      simp only [exists_ok_iff, ne_eq, buildRecord_eq_error]
    rw [buildRecords, bind_eq_error, firstFailure_cons, buildRecord_eq_error, ← built, ← ih]
    simp only [bind_eq_error, pure, Except.pure, reduceCtorEq, and_false, exists_false, or_false,
      exists_and_right]

/-- A path query once the analysis point is known. -/
theorem timingPathsWith_of_point {s : QueryService} {point : AnalysisPoint}
    (bound : s.context = .ok ctx) (resolved : pointOf ctx.engine config = .ok point)
    (starts : PinSet) (throughs : List PinSet) (ends : PinSet) :
    s.timingPathsWith config starts throughs ends =
      match (requestedPins starts throughs ends).find? (!ctx.engine.containsPin ·) with
      | some pin => .error (.unknownPin pin)
      | none =>
        if config.maxPathCount = 0 ∨ throughs.any (·.isEmpty) then .ok []
        else
          buildRecords ctx config ((ctx.engine.findPaths
            { starts, throughs, ends, point, maxPaths := config.maxPathCount
              unconstrained := config.includeUnconstrained }).take config.maxPathCount) := by
  rw [timingPathsWith, bound]
  change (pointOf ctx.engine config >>= _) = _
  rw [resolved]
  rfl

end QueryService

end TimingExplorer
