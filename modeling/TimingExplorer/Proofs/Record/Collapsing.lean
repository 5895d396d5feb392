import TimingExplorer.Proofs.Query.Failures
import TimingExplorer.Proofs.Query.Records
import TimingExplorer.Proofs.Record.ClockEnds

/-!
What collapsing the clock leaves of a walk and of the records that show it: all that is not on the
clock network, and the two ends of each longest run of clock stages. A walk starts and ends as
before, and to collapse again changes nothing.
-/
namespace TimingExplorer

variable {stages : List PathStage}

/-! ## Collapsing once more, and the ends of a walk -/

theorem collapseClock_collapseClock (afterClock : Bool) (stages : List PathStage) :
    collapseClock afterClock (collapseClock afterClock stages) =
      collapseClock afterClock stages := by
  induction stages generalizing afterClock with
  | nil => rfl
  | cons stage rest ih =>
    rw [collapseClock]
    split
    · next dropped =>
      simp only [Bool.and_eq_true] at dropped
      obtain ⟨⟨on, rfl⟩, _⟩ := dropped
      rw [on]
      exact ih true
    · next kept => rw [collapseClock, head_collapseClock, if_neg kept, ih]

theorem keptStages_keptStages (clockExpanded : Bool) (stages : List PathStage) :
    keptStages clockExpanded (keptStages clockExpanded stages) =
      keptStages clockExpanded stages := by
  cases clockExpanded with
  | true => rfl
  | false => exact collapseClock_collapseClock false stages

theorem head?_collapseClock (stages : List PathStage) :
    (collapseClock false stages).head? = stages.head? := by
  cases stages with
  | nil => rfl
  | cons stage rest =>
    rw [collapseClock, Bool.and_false, Bool.false_and, if_neg Bool.false_ne_true]
    rfl

theorem keptStages_eq_nil_iff {clockExpanded : Bool} :
    keptStages clockExpanded stages = [] ↔ stages = [] := by
  cases clockExpanded with
  | true => rfl
  | false => rw [← List.head?_eq_none_iff, keptStages, if_neg Bool.false_ne_true,
      head?_collapseClock, List.head?_eq_none_iff]

theorem length_takeWhile_pos (stages : List PathStage) :
    stages.head?.any (·.isClock) = decide (0 < (stages.takeWhile (·.isClock)).length) := by
  cases stages with
  | nil => rfl
  | cons stage rest => cases on : stage.isClock <;> simp [on]

/-- Of the clock stages that a walk begins with, two are left, or one behind another clock stage. -/
theorem length_takeWhile_collapseClock (afterClock : Bool) (stages : List PathStage) :
    ((collapseClock afterClock stages).takeWhile (·.isClock)).length =
      min (if afterClock then 1 else 2) (stages.takeWhile (·.isClock)).length := by
  induction stages generalizing afterClock with
  | nil => exact (Nat.min_zero _).symm
  | cons stage rest ih =>
    rw [collapseClock, length_takeWhile_pos]
    cases on : stage.isClock with
    | false => simp [on]
    | true =>
      have follow := ih true
      rw [if_pos rfl] at follow
      cases afterClock with
      | false =>
        simp only [Bool.and_false, Bool.false_and, Bool.false_eq_true, if_false,
          List.takeWhile_cons, on, if_true, List.length_cons, follow]
        omega
      | true =>
        simp only [Bool.and_self, Bool.true_and, decide_eq_true_eq, List.takeWhile_cons, on,
          if_true, List.length_cons]
        split
        · rw [follow]
          omega
        · simp only [List.takeWhile_cons, on, if_true, List.length_cons, follow]
          omega

/-! ## The nodes that a record shows -/

namespace PathRecord

variable {ctx : Context} {offset slack : Double} {path : PathId} {clockExpanded : Bool}
  {side : Side}
  {nodes : List PathNode} {r r' : PathRecord}

/-- The clock end of nodes can be read off the stages that they show. -/
theorem clockEndIndex_of_shows (shown : List.Forall₂ (ShowsStage ctx offset slack) stages nodes) :
    clockEndIndex nodes =
      if stages = [] then -1 else ((stages.takeWhile (·.isClock)).length : Int) := by
  have length : (nodes.takeWhile (·.flags.isClock)).length =
      (stages.takeWhile (·.isClock)).length := by
    induction shown with
    | nil => rfl
    | @cons stage n _ _ first _ ih =>
      rw [List.takeWhile_cons, List.takeWhile_cons, first.flags]
      cases stage.isClock <;> simp [ih]
  cases shown with
  | nil => rfl
  | cons _ _ => rw [if_neg (List.cons_ne_nil _ _), clockEndIndex_of_ne_nil (List.cons_ne_nil _ _),
      length]

/-- Populating succeeds just if every stage that is kept has a terminal. -/
theorem exists_populate_iff (found : ctx.engine.pathStages path = some stages) :
    (∃ r', r.populate ctx path offset clockExpanded side = .ok r') ↔
      ∀ stage ∈ keptStages clockExpanded stages,
        ∃ terminal, ctx.database.terminal stage.pin = some terminal := by
  have failed (e : QueryError) : r.populate ctx path offset clockExpanded side = .error e ↔
      FirstFailure (PathStage.Unmapped ctx.database) (keptStages clockExpanded stages) e := by
    rw [populate_eq, map_eq_error, stageNodes_eq_error]
    constructor
    · rintro (absent | ⟨found', which, failed⟩)
      · rw [found] at absent
        cases absent
      · obtain rfl := Option.some.inj (found.symm.trans found')
        exact kept_iff.mp which ▸ failed
    · exact .stage found (kept_iff.mpr rfl)
  simp only [exists_ok_iff, ne_eq, failed]
  rw [← not_exists, exists_firstFailure_iff]
  constructor
  · intro passed stage member
    cases mapped : ctx.database.terminal stage.pin with
    | none => exact absurd ⟨stage, member, _, .bare mapped⟩ passed
    | some terminal => exact ⟨terminal, rfl⟩
  · rintro mapped ⟨stage, member, e, failed⟩
    obtain ⟨terminal, known⟩ := mapped stage member
    cases known.symm.trans (PathStage.unmapped_iff.mp failed).1

/-- What collapsing the clock keeps of a walk, and what a record shows of it. Kept are, in order,
the stages that are not on the clock and both ends of each run of clock stages. Collapsing again
changes nothing, and a walk starts and ends as before. On either side of a record the nodes show
just the kept stages, so that the clock part ends behind at most two of them, wherever it ended in
full. -/
theorem collapsing_keeps (stages : List PathStage) :
    (∃ positions : List Nat, positions.Pairwise (· < ·) ∧
        (∀ i, i ∈ positions ↔ IsEndOrData stages i) ∧
        (keptStages false stages).map some = positions.map (stages[·]?)) ∧
      keptStages false (keptStages false stages) = keptStages false stages ∧
      (keptStages false stages).head? = stages.head? ∧
      (keptStages false stages).getLast? = stages.getLast? ∧
      ∀ (operations : List Operation) (ctx : Context) (path : PathId) (offset : Double)
        (side : Side), ctx.engine.pathStages path = some stages →
        let populated (clockExpanded : Bool) :=
          (PathRecord.empty.run operations).populate ctx path offset clockExpanded side
        ((∃ r, populated false = .ok r) ↔ ∀ stage ∈ keptStages false stages,
          ∃ terminal, ctx.database.terminal stage.pin = some terminal) ∧
        (∀ r, populated false = .ok r → List.Forall₂ (ShowsStage ctx (side.shift offset) 0)
          (keptStages false stages) (r.sideNodes side)) ∧
        ∀ r r', populated false = .ok r → populated true = .ok r' →
          r.computeClockEnds.clockEnd side = min 2 (r'.computeClockEnds.clockEnd side) := by
  refine ⟨⟨keptPositions false stages, pairwise_keptPositions false stages,
    fun _ => mem_keptPositions, collapseClock_eq false stages⟩, keptStages_keptStages false stages,
    head?_collapseClock stages, getLast?_collapseClock false stages, ?_⟩
  intro operations ctx path offset side found populated
  have whole := partitioned_run operations
  refine ⟨exists_populate_iff found, fun r done => shows_of_populate whole done found, ?_⟩
  intro r r' done done'
  have collapsed := clockEndIndex_of_shows (shows_of_populate whole done found)
  have full := clockEndIndex_of_shows (shows_of_populate whole done' found)
  have ends (r : PathRecord) :
      r.computeClockEnds.clockEnd side = clockEndIndex (r.sideNodes side) :=
    clockEnd_computeClockEnds r side
  rw [ends, ends, collapsed, full]
  by_cases empty : stages = []
  · subst empty
    rfl
  · have length := length_takeWhile_collapseClock false stages
    rw [if_neg Bool.false_ne_true] at length
    rw [if_neg (mt keptStages_eq_nil_iff.mp empty), if_neg (mt keptStages_eq_nil_iff.mp empty)]
    simp only [keptStages, Bool.false_eq_true, if_false, if_true, length]
    omega

/-- The three clock stages of the buffer's clock: the one inside the run is dropped. -/
theorem collapsing_keeps_buffer : ∃ r r',
    PathRecord.empty.populate buffer ⟨0⟩ 0 false .launch = .ok r ∧
      PathRecord.empty.populate buffer ⟨0⟩ 0 true .launch = .ok r' ∧
      (r.sideNodes .launch).map (·.pin) = [⟨0⟩, ⟨2⟩] ∧
      r'.computeClockEnds.clockEnd .launch = 3 ∧ r.computeClockEnds.clockEnd .launch = min 2 3 := by
  obtain ⟨stages, found⟩ : ∃ stages, buffer.engine.pathStages ⟨0⟩ = some stages := ⟨_, rfl⟩
  obtain ⟨_, _, _, _, shown⟩ := collapsing_keeps stages
  obtain ⟨_, _, ends⟩ := shown [] buffer ⟨0⟩ 0 .launch found
  exact ⟨_, _, rfl, rfl, rfl, rfl, ends _ _ rfl rfl⟩

end PathRecord

end TimingExplorer
