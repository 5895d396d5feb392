import TimingExplorer.Query

/-!
What a query runs against: both sources, and the analysis point that its settings stand for. Where
one of them is missing the query fails before it asks for anything else.
-/
namespace TimingExplorer

/-- The point that settings stand for: at the corner that they name, or else at the engine's own,
and for the worst case or for the best. -/
structure AnalysisConfig.StandsFor (config : AnalysisConfig) (engine : TimingEngine)
    (point : AnalysisPoint) : Prop where
  named : ∀ name, config.corner = some name → engine.findCorner name = some point.corner
  unnamed : config.corner = none → engine.defaultCorner = some point.corner
  worst : point.minMax = if config.useMax then .max else .min

namespace QueryService

variable {s : QueryService} {config : AnalysisConfig} {engine : TimingEngine}
  {point : AnalysisPoint} {e : QueryError}

theorem context_eq_error : s.context = .error e ↔
    s.engine = none ∧ e = .noEngine ∨
      (∃ engine, s.engine = some engine) ∧ s.database = none ∧ e = .noDatabase := by
  unfold context
  cases s.engine <;> cases s.database <;> simp [eq_comm]

theorem pointOf_eq_error : pointOf engine config = .error e ↔
    (∃ name, config.corner = some name ∧ engine.findCorner name = none ∧ e = .unknownCorner name) ∨
      config.corner = none ∧ engine.defaultCorner = none ∧ e = .noCorner := by
  unfold pointOf
  cases config.corner with
  | none => cases engine.defaultCorner <;> simp [eq_comm]
  | some name => cases found : engine.findCorner name <;> simp [found, eq_comm]

theorem pointOf_eq_ok : pointOf engine config = .ok point ↔ config.StandsFor engine point := by
  obtain ⟨corner, minMax⟩ := point
  have standsFor : config.StandsFor engine ⟨corner, minMax⟩ ↔
      ((∀ name, config.corner = some name → engine.findCorner name = some corner) ∧
        (config.corner = none → engine.defaultCorner = some corner)) ∧
      minMax = .ofUseMax config.useMax :=
    ⟨fun ⟨named, unnamed, worst⟩ => ⟨⟨named, unnamed⟩, worst⟩,
      fun ⟨⟨named, unnamed⟩, worst⟩ => ⟨named, unnamed, worst⟩⟩
  rw [standsFor, pointOf]
  cases config.corner with
  | none => cases engine.defaultCorner <;> simp [eq_comm]
  | some name => cases found : engine.findCorner name <;> simp [found, eq_comm]

end QueryService

end TimingExplorer
