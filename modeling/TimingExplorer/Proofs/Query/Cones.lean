import TimingExplorer.Proofs.Cone.Annotation
import TimingExplorer.Proofs.Cone.Reach
import TimingExplorer.Proofs.Query.Point

/-!
Cone queries that fail. What is missing, a corner that does not resolve and an unknown seed are all
found out before the cone is, and the caller keeps the depth map of before. A pin of the cone that
cannot have a node is met only afterwards, when the cone has already taken the place of that map.
-/
namespace TimingExplorer

namespace QueryService

variable {s : QueryService} {config : AnalysisConfig} {direction : ConeDirection} {seed : PinId}
  {ctx : Context} {point : AnalysisPoint} {e : QueryError} {earlier after : DepthMap}

/-- Why a cone query fails, with the depth map that it leaves to the caller. -/
inductive ConeFailure (s : QueryService) (config : AnalysisConfig) (direction : ConeDirection)
    (seed : PinId) (earlier : DepthMap) : DepthMap → QueryError → Prop where
  | noEngine (missing : s.engine = none) :
      ConeFailure s config direction seed earlier earlier .noEngine
  | noDatabase {engine : TimingEngine} (bound : s.engine = some engine)
      (missing : s.database = none) :
      ConeFailure s config direction seed earlier earlier .noDatabase
  | unknownCorner {ctx : Context} {name : String} (bound : s.context = .ok ctx)
      (named : config.corner = some name) (absent : ctx.engine.findCorner name = none) :
      ConeFailure s config direction seed earlier earlier (.unknownCorner name)
  | noCorner {ctx : Context} (bound : s.context = .ok ctx) (unnamed : config.corner = none)
      (missing : ctx.engine.defaultCorner = none) :
      ConeFailure s config direction seed earlier earlier .noCorner
  | unknownSeed {ctx : Context} {point : AnalysisPoint} (bound : s.context = .ok ctx)
      (resolved : config.StandsFor ctx.engine point)
      (absent : ctx.engine.containsPin seed = false) :
      ConeFailure s config direction seed earlier earlier (.unknownPin seed)
  | node {ctx : Context} {point : AnalysisPoint} {cone : DepthMap} {e : QueryError}
      (bound : s.context = .ok ctx) (resolved : config.StandsFor ctx.engine point)
      (found : ctx.engine.cone seed direction = .ok cone)
      (refused : ctx.RefusesFirst cone.entries e) :
      ConeFailure s config direction seed earlier cone e

theorem buildConeWith_of_unbound (failed : s.context = .error e) :
    s.buildConeWith config direction seed earlier = (earlier, .error e) := by
  rw [buildConeWith, failed]
  rfl

theorem buildConeWith_of_unresolved (bound : s.context = .ok ctx)
    (failed : pointOf ctx.engine config = .error e) :
    s.buildConeWith config direction seed earlier = (earlier, .error e) := by
  simp only [buildConeWith, bound, failed, bind, Except.bind]

theorem buildConeWith_of_point (bound : s.context = .ok ctx)
    (resolved : pointOf ctx.engine config = .ok point) :
    s.buildConeWith config direction seed earlier =
      (ConeBuilder.ofContext ctx).build seed direction point earlier := by
  simp only [buildConeWith, bound, resolved, bind, Except.bind, pure, Except.pure]

/-- A cone query fails for the listed reasons only, and each of them leaves the listed depth map. -/
theorem buildConeWith_eq_error : s.buildConeWith config direction seed earlier = (after, .error e) ↔
    s.ConeFailure config direction seed earlier after e := by
  constructor
  -- Each phase runs only after the one before it, so the phases are opened in their order.
  · intro failed
    cases bound : s.context with
    | error reason =>
      rw [buildConeWith_of_unbound bound] at failed
      obtain ⟨rfl, same⟩ := Prod.mk.inj failed
      obtain rfl := Except.error.inj same
      rcases context_eq_error.mp bound with ⟨missing, rfl⟩ | ⟨⟨_, engine⟩, missing, rfl⟩
      · exact .noEngine missing
      · exact .noDatabase engine missing
    | ok ctx =>
      cases resolved : pointOf ctx.engine config with
      | error reason =>
        rw [buildConeWith_of_unresolved bound resolved] at failed
        obtain ⟨rfl, same⟩ := Prod.mk.inj failed
        obtain rfl := Except.error.inj same
        rcases pointOf_eq_error.mp resolved with ⟨_, named, absent, rfl⟩ | ⟨unnamed, missing, rfl⟩
        · exact .unknownCorner bound named absent
        · exact .noCorner bound unnamed missing
      | ok point =>
        rw [buildConeWith_of_point bound resolved] at failed
        rcases ConeBuilder.build_eq_error.mp failed with ⟨lost, rfl⟩ | ⟨found, failed⟩
        · obtain ⟨absent, rfl⟩ := TimingEngine.cone_eq_error.mp lost
          exact .unknownSeed bound (pointOf_eq_ok.mp resolved) absent
        · rcases ConeBuilder.annotate_eq_error.mp failed with ⟨missing, _⟩ | ⟨_, same, refused⟩
          · cases missing
          · obtain rfl := Option.some.inj same
            exact .node bound (pointOf_eq_ok.mp resolved) found refused
  · intro failure
    cases failure with
    | noEngine missing =>
      exact buildConeWith_of_unbound (context_eq_error.mpr (.inl ⟨missing, rfl⟩))
    | noDatabase bound missing =>
      exact buildConeWith_of_unbound (context_eq_error.mpr (.inr ⟨⟨_, bound⟩, missing, rfl⟩))
    | unknownCorner bound named absent =>
      exact buildConeWith_of_unresolved bound
        (pointOf_eq_error.mpr (.inl ⟨_, named, absent, rfl⟩))
    | noCorner bound unnamed missing =>
      exact buildConeWith_of_unresolved bound (pointOf_eq_error.mpr (.inr ⟨unnamed, missing, rfl⟩))
    | unknownSeed bound resolved absent =>
      rw [buildConeWith_of_point bound (pointOf_eq_ok.mpr resolved), ConeBuilder.build_eq_error]
      exact .inl ⟨TimingEngine.cone_eq_error.mpr ⟨absent, rfl⟩, rfl⟩
    | node bound resolved found refused =>
      rw [buildConeWith_of_point bound (pointOf_eq_ok.mpr resolved), ConeBuilder.build_eq_error]
      exact .inr ⟨found, ConeBuilder.annotate_eq_error.mpr (.inr ⟨_, rfl, refused⟩)⟩

/-- What a failed cone query leaves behind, under given settings and under the service's own. The
depth map of before is kept unless a pin of the cone has no node; then the cone has replaced it. -/
theorem buildConeWith_failure (s : QueryService) (seed : PinId) (earlier : DepthMap) :
    (∀ config direction after e,
      s.buildConeWith config direction seed earlier = (after, .error e) ↔
        s.ConeFailure config direction seed earlier after e) ∧
    (∀ after e, s.buildCone seed earlier = (after, .error e) ↔
      s.ConeFailure s.analysis s.cone.direction seed earlier after e) ∧
    ∀ direction, (∀ ctx cone, s.context = .ok ctx → ctx.engine.cone seed direction = .ok cone →
        ∀ entry ∈ cone.entries, ctx.Mapped entry.2) →
      ∀ config after e, s.buildConeWith config direction seed earlier = (after, .error e) →
        after = earlier := by
  refine ⟨fun _ _ _ _ => buildConeWith_eq_error, fun _ _ => buildConeWith_eq_error, ?_⟩
  intro direction mapped config after e failed
  cases buildConeWith_eq_error.mp failed with
  | noEngine | noDatabase | unknownCorner | noCorner | unknownSeed => rfl
  | node bound _ found refused =>
    exact absurd refused (Context.not_refusesFirst (mapped _ _ bound found))

/-- A driven net without loads, whose only pin the database does not know. -/
def bareDriver : Context where
  engine := Design.engine {
    corners := .ofList ["typ"]
    pins := .ofList [
      { name := "a", inst := none, terminal := .ofBlock ⟨0⟩, direction := .input
        net := some ⟨0⟩ }]
    nets := .ofList [{ name := "n", pins := [⟨0⟩] }] }
  database := { Design.empty.database with terminal := fun _ => none }

theorem cone_bareDriver :
    bareDriver.engine.cone ⟨0⟩ .fanout = .ok (.ofDepths [(⟨0⟩, 0)]) := by
  change bareDriver.engine.reach .forward ⟨0⟩ = _
  exact TimingEngine.reach_of_runFor 2 rfl rfl rfl

/-- A pin without a terminal makes the query fail, and still the caller's empty depth map is gone.
-/
theorem not_buildConeWith_keeps : ¬ ∀ (s : QueryService) (config : AnalysisConfig)
    (direction : ConeDirection) (seed : PinId) (earlier after : DepthMap) (e : QueryError),
    s.buildConeWith config direction seed earlier = (after, .error e) → after = earlier := by
  intro keeps
  have entries : (DepthMap.ofDepths [(⟨0⟩, 0)]).entries = [(0, ⟨0⟩)] := rfl
  have refused : bareDriver.RefusesFirst (DepthMap.ofDepths [(⟨0⟩, 0)]).entries
      (.unmappedPin ⟨0⟩) := by
    rw [entries, Context.refusesFirst_cons]
    exact .inl (.unmapped rfl rfl)
  have failed : (ofContext bareDriver).buildConeWith {} .fanout ⟨0⟩ ∅ =
      (DepthMap.ofDepths [(⟨0⟩, 0)], .error (.unmappedPin ⟨0⟩)) :=
    buildConeWith_eq_error.mpr (.node rfl (pointOf_eq_ok.mp rfl) cone_bareDriver refused)
  have same := congrArg DepthMap.entries (keeps _ _ _ _ _ _ _ failed)
  rw [entries] at same
  cases same

end QueryService

end TimingExplorer
