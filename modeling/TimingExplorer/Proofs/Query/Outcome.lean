import TimingExplorer.Proofs.Query.Cones
import TimingExplorer.Proofs.Record.Collapsing

/-!
When a path query has no answer. The sources and the corner are looked at first, then the pins that
the request names, and only then the engine is asked for paths. Of these no more are walked than
were asked for, and of a walk only the stages that are kept need a terminal.
-/
namespace TimingExplorer

/-! ## The pins that a request names -/

/-- The first pin of a group, in ascending order, that the engine does not know. -/
structure TimingEngine.LeastUnknown (engine : TimingEngine) (group : PinSet) (pin : PinId) :
    Prop where
  member : pin ∈ group
  unknown : engine.containsPin pin = false
  least : ∀ other ∈ group, other.raw < pin.raw → engine.containsPin other = true

theorem PinSet.pairwise_toList (group : PinSet) :
    group.toList.Pairwise fun pin other => pin.raw < other.raw := by
  apply Std.TreeSet.ordered_toList.imp
  intro pin other ordered
  exact Nat.compare_eq_lt.mp ordered

section Requests

variable {engine : TimingEngine} {group starts ends : PinSet} {throughs : List PinSet} {pin : PinId}

theorem find?_toList : group.toList.find? (!engine.containsPin ·) = some pin ↔
    engine.LeastUnknown group pin := by
  have ascending := PinSet.pairwise_toList group
  rw [List.find?_eq_some_iff_append]
  constructor
  · rintro ⟨unknown, before, after, split, passed⟩
    rw [split, List.pairwise_append, List.pairwise_cons] at ascending
    refine ⟨?_, by simpa using unknown, ?_⟩
    · rw [← Std.TreeSet.mem_toList, split]
      exact List.mem_append_right _ List.mem_cons_self
    · intro other member below
      rw [← Std.TreeSet.mem_toList, split] at member
      rcases List.mem_append.mp member with earlier | later
      · simpa using passed other earlier
      · rcases List.mem_cons.mp later with rfl | later
        · exact absurd below (Nat.lt_irrefl _)
        · have above := ascending.2.1.1 other later
          omega
  · rintro ⟨member, unknown, least⟩
    obtain ⟨before, after, split⟩ := List.append_of_mem (Std.TreeSet.mem_toList.mpr member)
    refine ⟨by simp [unknown], before, after, split, ?_⟩
    intro other earlier
    rw [split, List.pairwise_append] at ascending
    have listed : other ∈ group := by
      rw [← Std.TreeSet.mem_toList, split]
      exact List.mem_append_left _ earlier
    have known := least other listed (ascending.2.2 other earlier pin List.mem_cons_self)
    simpa using known

theorem QueryService.requestedPins_eq : requestedPins starts throughs ends =
    (starts :: throughs ++ [ends]).flatMap (·.toList) := by
  simp [requestedPins]

/-- The groups are read in order. -/
theorem QueryService.find?_requestedPins :
    (requestedPins starts throughs ends).find? (!engine.containsPin ·) = some pin ↔
      FirstFailure engine.LeastUnknown (starts :: throughs ++ [ends]) pin := by
  have passed (group : PinSet) : group.toList.find? (!engine.containsPin ·) = none ↔
      ∀ pin, ¬ engine.LeastUnknown group pin := by
    simp only [← find?_toList, Option.eq_none_iff_forall_ne_some, ne_eq]
  rw [requestedPins_eq, List.find?_flatMap, List.findSome?_eq_some_iff, FirstFailure]
  simp only [find?_toList, passed]
  exact exists_congr fun _ => exists_congr fun _ => exists_congr fun _ =>
    and_congr_right fun _ => and_comm

theorem QueryService.find?_requestedPins_eq_none :
    (requestedPins starts throughs ends).find? (!engine.containsPin ·) = none ↔
      ∀ group ∈ starts :: throughs ++ [ends], ∀ pin ∈ group, engine.containsPin pin = true := by
  rw [requestedPins_eq, List.find?_eq_none]
  simp only [List.mem_flatMap, Std.TreeSet.mem_toList, Bool.not_eq_true', Bool.not_eq_false,
    forall_exists_index, and_imp]
  exact ⟨fun all group listed pin member => all pin group listed member,
    fun all pin group listed member => all group listed pin member⟩

end Requests

/-! ## Walks and records -/

variable {ctx : Context} {config : AnalysisConfig} {path : PathId} {clockExpanded : Bool}
  {stages : List PathStage} {stage : PathStage}

/-- Kept are all stages, or with the clock collapsed those off the clock and the ends of its runs.
-/
theorem exists_keptPositions (clockExpanded : Bool) (stages : List PathStage) :
    ∃ positions : List Nat, positions.Pairwise (· < ·) ∧
      (∀ i, i ∈ positions ↔ i < stages.length ∧ (clockExpanded = true ∨ IsEndOrData stages i)) ∧
      (keptStages clockExpanded stages).map some = positions.map (stages[·]?) := by
  cases clockExpanded with
  | true =>
    refine ⟨List.range stages.length, List.pairwise_lt_range, fun i => by simp, ?_⟩
    exact List.ext_getElem (by simp [keptStages]) (by simp [keptStages])
  | false =>
    refine ⟨keptPositions false stages, pairwise_keptPositions false stages, fun i => ?_,
      collapseClock_eq false stages⟩
    rw [mem_keptPositions]
    simp [IsEndOrData]

theorem mem_keptStages : stage ∈ keptStages clockExpanded stages ↔
    ∃ i, stages[i]? = some stage ∧ (clockExpanded = true ∨ IsEndOrData stages i) := by
  obtain ⟨positions, _, kept, places⟩ := exists_keptPositions clockExpanded stages
  have listed : some stage ∈ (keptStages clockExpanded stages).map some ↔
      some stage ∈ positions.map (stages[·]?) := by
    rw [places]
  simp only [List.mem_map, Option.some.injEq, exists_eq_right, kept] at listed
  rw [listed]
  constructor
  · rintro ⟨i, ⟨_, which⟩, here⟩
    exact ⟨i, here, which⟩
  · rintro ⟨i, here, which⟩
    exact ⟨i, ⟨(List.getElem?_eq_some_iff.mp here).1, which⟩, here⟩

namespace Context

/-- A walk along a path: it is known, and every stage that is kept has a terminal. -/
def Walks (ctx : Context) (path : PathId) (clockExpanded : Bool) : Prop :=
  ∃ stages, ctx.engine.pathStages path = some stages ∧
    ∀ i stage, stages[i]? = some stage → (clockExpanded = true ∨ IsEndOrData stages i) →
      ∃ terminal, ctx.database.terminal stage.pin = some terminal

/-- What the record of a path needs. -/
structure Records (ctx : Context) (config : AnalysisConfig) (path : PathId) : Prop where
  summary : ∃ summary, ctx.engine.pathSummary path = some summary
  launch : ctx.Walks path config.clockExpanded
  capture : config.includeCapturePaths = true → ∀ clock, ctx.engine.capturePath path = some clock →
    ctx.Walks clock.path config.clockExpanded

theorem walks_iff : ctx.Walks path clockExpanded ↔
    ∀ e, ¬ PathRecord.WalkFailure ctx path clockExpanded e := by
  cases found : ctx.engine.pathStages path with
  | none =>
    constructor
    · rintro ⟨stages, known, _⟩
      cases found.symm.trans known
    · intro passed
      exact absurd (.unknown found) (passed _)
  | some stages =>
    have walked : ctx.Walks path clockExpanded ↔ ∀ stage ∈ keptStages clockExpanded stages,
        ∃ terminal, ctx.database.terminal stage.pin = some terminal := by
      simp only [Walks, found, Option.some.injEq, exists_eq_left', mem_keptStages,
        forall_exists_index, and_imp]
      exact forall_comm
    have failed (e : QueryError) :
        PathRecord.empty.populate ctx path 0 clockExpanded .launch = .error e ↔
          PathRecord.WalkFailure ctx path clockExpanded e := by
      rw [PathRecord.populate_eq, QueryService.populate_eq_error]
    simp only [← failed, ← exists_ok_iff]
    exact walked.trans (PathRecord.exists_populate_iff found).symm

theorem records_iff : ctx.Records config path ↔
    ∀ e, ¬ QueryService.RecordFailure ctx config path e := by
  constructor
  · rintro ⟨⟨summary, known⟩, launch, capture⟩ e
      (absent | ⟨_, failed⟩ | ⟨_, _, included, linked, failed⟩)
    · cases known.symm.trans absent
    · exact walks_iff.mp launch e failed
    · exact walks_iff.mp (capture included _ linked) e failed
  · intro passed
    obtain ⟨summary, known⟩ : ∃ summary, ctx.engine.pathSummary path = some summary := by
      cases known : ctx.engine.pathSummary path with
      | none => exact absurd (.summary known) (passed _)
      | some summary => exact ⟨summary, rfl⟩
    have launch (e : QueryError) : ¬ PathRecord.WalkFailure ctx path config.clockExpanded e :=
      fun failed => passed e (.launch known failed)
    refine ⟨⟨summary, known⟩, walks_iff.mpr launch, ?_⟩
    intro included clock linked
    apply walks_iff.mpr
    intro e failed
    exact passed e (.capture known launch included linked failed)

end Context

/-! ## Queries -/

namespace QueryService

variable {s : QueryService} {starts ends : PinSet} {throughs : List PinSet} {e : QueryError}

/-- Why a path query has no answer. Each reason comes into question only where those above it do
not hold. -/
inductive PathFailure (s : QueryService) (config : AnalysisConfig) (starts : PinSet)
    (throughs : List PinSet) (ends : PinSet) : QueryError → Prop where
  | noEngine (missing : s.engine = none) : PathFailure s config starts throughs ends .noEngine
  | noDatabase {engine : TimingEngine} (bound : s.engine = some engine)
      (missing : s.database = none) : PathFailure s config starts throughs ends .noDatabase
  | unknownCorner {ctx : Context} {name : String} (bound : s.context = .ok ctx)
      (named : config.corner = some name) (absent : ctx.engine.findCorner name = none) :
      PathFailure s config starts throughs ends (.unknownCorner name)
  | noCorner {ctx : Context} (bound : s.context = .ok ctx) (unnamed : config.corner = none)
      (missing : ctx.engine.defaultCorner = none) :
      PathFailure s config starts throughs ends .noCorner
  | unknownPin {ctx : Context} {point : AnalysisPoint} {pin : PinId} (bound : s.context = .ok ctx)
      (resolved : config.StandsFor ctx.engine point)
      (first : FirstFailure ctx.engine.LeastUnknown (starts :: throughs ++ [ends]) pin) :
      PathFailure s config starts throughs ends (.unknownPin pin)
  | record {ctx : Context} {point : AnalysisPoint} {e : QueryError} (bound : s.context = .ok ctx)
      (resolved : config.StandsFor ctx.engine point)
      (known : ∀ group ∈ starts :: throughs ++ [ends], ∀ pin ∈ group,
        ctx.engine.containsPin pin = true)
      (asked : 0 < config.maxPathCount) (met : ∀ group ∈ throughs, group.isEmpty = false)
      (failed : FirstFailure (RecordFailure ctx config)
        ((ctx.engine.findPaths
          { starts, throughs, ends, point, maxPaths := config.maxPathCount
            unconstrained := config.includeUnconstrained }).take config.maxPathCount) e) :
      PathFailure s config starts throughs ends e

theorem exists_buildRecords_iff {paths : List PathId} :
    (∃ records, buildRecords ctx config paths = .ok records) ↔
      ∀ path ∈ paths, ctx.Records config path := by
  simp only [exists_ok_iff, ne_eq, buildRecords_eq_error, Context.records_iff]
  rw [← not_exists, exists_firstFailure_iff]
  simp only [not_exists, not_and]

theorem searches_iff : ¬ (config.maxPathCount = 0 ∨ throughs.any (·.isEmpty) = true) ↔
    0 < config.maxPathCount ∧ ∀ group ∈ throughs, group.isEmpty = false := by
  simp [Nat.pos_iff_ne_zero]

theorem timingPathsWith_of_unbound (failed : s.context = .error e) :
    s.timingPathsWith config starts throughs ends = .error e := by
  rw [timingPathsWith, failed]
  rfl

theorem timingPathsWith_of_unresolved (bound : s.context = .ok ctx)
    (failed : pointOf ctx.engine config = .error e) :
    s.timingPathsWith config starts throughs ends = .error e := by
  rw [timingPathsWith, bound]
  change (pointOf ctx.engine config >>= _) = _
  rw [failed]
  rfl

section Resolved

variable {point : AnalysisPoint} (bound : s.context = .ok ctx)
  (resolved : pointOf ctx.engine config = .ok point)
include bound resolved

theorem timingPathsWith_of_unknown {pin : PinId}
    (first : FirstFailure ctx.engine.LeastUnknown (starts :: throughs ++ [ends]) pin) :
    s.timingPathsWith config starts throughs ends = .error (.unknownPin pin) := by
  rw [timingPathsWith_of_point bound resolved, find?_requestedPins.mpr first]

theorem timingPathsWith_of_known
    (known : ∀ group ∈ starts :: throughs ++ [ends], ∀ pin ∈ group,
      ctx.engine.containsPin pin = true) :
    s.timingPathsWith config starts throughs ends =
      if config.maxPathCount = 0 ∨ throughs.any (·.isEmpty) then .ok []
      else
        buildRecords ctx config ((ctx.engine.findPaths
          { starts, throughs, ends, point, maxPaths := config.maxPathCount
            unconstrained := config.includeUnconstrained }).take config.maxPathCount) := by
  rw [timingPathsWith_of_point bound resolved, find?_requestedPins_eq_none.mpr known]

end Resolved

/-- A path query fails for the listed reasons only. -/
theorem timingPathsWith_eq_error : s.timingPathsWith config starts throughs ends = .error e ↔
    s.PathFailure config starts throughs ends e := by
  constructor
  -- Each check runs only after the one before it, so they are opened in their order.
  · intro failed
    cases bound : s.context with
    | error reason =>
      rw [timingPathsWith_of_unbound bound] at failed
      obtain rfl := Except.error.inj failed
      rcases context_eq_error.mp bound with ⟨missing, rfl⟩ | ⟨⟨_, engine⟩, missing, rfl⟩
      · exact .noEngine missing
      · exact .noDatabase engine missing
    | ok ctx =>
      cases resolved : pointOf ctx.engine config with
      | error reason =>
        rw [timingPathsWith_of_unresolved bound resolved] at failed
        obtain rfl := Except.error.inj failed
        rcases pointOf_eq_error.mp resolved with ⟨_, named, absent, rfl⟩ | ⟨unnamed, missing, rfl⟩
        · exact .unknownCorner bound named absent
        · exact .noCorner bound unnamed missing
      | ok point =>
        cases sought : (requestedPins starts throughs ends).find? (!ctx.engine.containsPin ·) with
        | some pin =>
          have first := find?_requestedPins.mp sought
          rw [timingPathsWith_of_unknown bound resolved first] at failed
          obtain rfl := Except.error.inj failed
          exact .unknownPin bound (pointOf_eq_ok.mp resolved) first
        | none =>
          have known := find?_requestedPins_eq_none.mp sought
          rw [timingPathsWith_of_known bound resolved known] at failed
          split at failed
          · cases failed
          · next something =>
            obtain ⟨asked, met⟩ := searches_iff.mp something
            exact .record bound (pointOf_eq_ok.mp resolved) known asked met
              (buildRecords_eq_error.mp failed)
  · intro failure
    cases failure with
    | noEngine missing =>
      exact timingPathsWith_of_unbound (context_eq_error.mpr (.inl ⟨missing, rfl⟩))
    | noDatabase bound missing =>
      exact timingPathsWith_of_unbound (context_eq_error.mpr (.inr ⟨⟨_, bound⟩, missing, rfl⟩))
    | unknownCorner bound named absent =>
      exact timingPathsWith_of_unresolved bound
        (pointOf_eq_error.mpr (.inl ⟨_, named, absent, rfl⟩))
    | noCorner bound unnamed missing =>
      exact timingPathsWith_of_unresolved bound
        (pointOf_eq_error.mpr (.inr ⟨unnamed, missing, rfl⟩))
    | unknownPin bound resolved first =>
      exact timingPathsWith_of_unknown bound (pointOf_eq_ok.mpr resolved) first
    | record bound resolved known asked met failed =>
      rw [timingPathsWith_of_known bound (pointOf_eq_ok.mpr resolved) known,
        if_neg (searches_iff.mpr ⟨asked, met⟩)]
      exact buildRecords_eq_error.mpr failed

/-- What a path query needs to have an answer. -/
structure Answerable (s : QueryService) (config : AnalysisConfig) (starts : PinSet)
    (throughs : List PinSet) (ends : PinSet) (ctx : Context) (point : AnalysisPoint) : Prop where
  bound : s.context = .ok ctx
  resolved : config.StandsFor ctx.engine point
  known : ∀ group ∈ starts :: throughs ++ [ends], ∀ pin ∈ group, ctx.engine.containsPin pin = true
  records : 0 < config.maxPathCount → (∀ group ∈ throughs, group.isEmpty = false) →
    ∀ path ∈ (ctx.engine.findPaths
      { starts, throughs, ends, point, maxPaths := config.maxPathCount
        unconstrained := config.includeUnconstrained }).take config.maxPathCount,
      ctx.Records config path

theorem exists_answer_iff :
    (∃ records, s.timingPathsWith config starts throughs ends = .ok records) ↔
    ∃ ctx point, s.Answerable config starts throughs ends ctx point := by
  constructor
  · intro answered
    have passed := exists_ok_iff.mp answered
    obtain ⟨ctx, bound⟩ : ∃ ctx, s.context = .ok ctx := by
      rw [exists_ok_iff]
      intro e failed
      exact passed e (timingPathsWith_of_unbound failed)
    obtain ⟨point, resolved⟩ : ∃ point, pointOf ctx.engine config = .ok point := by
      rw [exists_ok_iff]
      intro e failed
      exact passed e (timingPathsWith_of_unresolved bound failed)
    have known : (requestedPins starts throughs ends).find? (!ctx.engine.containsPin ·) = none := by
      rw [Option.eq_none_iff_forall_ne_some]
      intro pin sought
      exact passed _ (timingPathsWith_of_unknown bound resolved (find?_requestedPins.mp sought))
    rw [find?_requestedPins_eq_none] at known
    refine ⟨ctx, point, bound, pointOf_eq_ok.mp resolved, known, fun asked met => ?_⟩
    rw [timingPathsWith_of_known bound resolved known, if_neg (searches_iff.mpr ⟨asked, met⟩)]
      at answered
    exact exists_buildRecords_iff.mp answered
  · rintro ⟨ctx, point, bound, resolved, known, records⟩
    rw [timingPathsWith_of_known bound (pointOf_eq_ok.mpr resolved) known]
    split
    · exact ⟨[], rfl⟩
    · next something =>
      obtain ⟨asked, met⟩ := searches_iff.mp something
      exact exists_buildRecords_iff.mpr (records asked met)

/-- How a path query ends. It fails for the reasons listed in `PathFailure`, and else it has an
answer. An answer needs nothing of paths past the bound or of stages that collapsing drops. -/
theorem timingPathsWith_outcome (s : QueryService) (config : AnalysisConfig) (starts : PinSet)
    (throughs : List PinSet) (ends : PinSet) :
    (∀ e, s.timingPathsWith config starts throughs ends = .error e ↔
        s.PathFailure config starts throughs ends e) ∧
      ((∃ records, s.timingPathsWith config starts throughs ends = .ok records) ↔
        ∃ ctx point, s.Answerable config starts throughs ends ctx point) :=
  ⟨fun _ => timingPathsWith_eq_error, exists_answer_iff⟩

end QueryService

end TimingExplorer
