import TimingExplorer.Cone.Annotation
import TimingExplorer.Proofs.Failure

/-!
When the pins of a cone cannot have nodes. The nodes are made in order of depth and pin, so the
first pin that is unknown or has no terminal decides on the error.
-/
namespace TimingExplorer

variable {ctx : Context} {pin seed : PinId} {point : AnalysisPoint} {e : QueryError}
  {entries rest : List (Int × PinId)} {depth : Int} {m earlier after : DepthMap}
  {direction : ConeDirection}

namespace Context

/-- A pin that can have a node: the engine knows it, and it has a terminal. -/
def Mapped (ctx : Context) (pin : PinId) : Prop :=
  ctx.engine.containsPin pin = true ∧ (ctx.database.terminal pin).isSome = true

/-- Why a pin cannot have a node. -/
inductive Refuses (ctx : Context) (pin : PinId) : QueryError → Prop where
  | unknown (absent : ctx.engine.containsPin pin = false) : Refuses ctx pin (.unknownPin pin)
  | unmapped (known : ctx.engine.containsPin pin = true)
      (bare : ctx.database.terminal pin = none) : Refuses ctx pin (.unmappedPin pin)

/-- Why the entries of a depth map cannot all have nodes: the reason of the first that has none. -/
def RefusesFirst (ctx : Context) (entries : List (Int × PinId)) (e : QueryError) : Prop :=
  ∃ before depth pin rest, entries = before ++ (depth, pin) :: rest ∧
    (∀ entry ∈ before, ctx.Mapped entry.2) ∧ ctx.Refuses pin e

theorem mapped_iff : ctx.Mapped pin ↔ ∀ e, ¬ ctx.Refuses pin e := by
  constructor
  · rintro ⟨known, terminal⟩ _ (absent | ⟨_, bare⟩)
    · simp [known] at absent
    · simp [bare] at terminal
  · intro accepted
    cases known : ctx.engine.containsPin pin with
    | false => exact absurd (.unknown known) (accepted _)
    | true =>
      cases mapped : ctx.database.terminal pin with
      | none => exact absurd (.unmapped known mapped) (accepted _)
      | some terminal => exact ⟨known, Option.isSome_iff_exists.mpr ⟨terminal, mapped⟩⟩

theorem refusesFirst_iff : ctx.RefusesFirst entries e ↔
    FirstFailure (fun entry => ctx.Refuses entry.2) entries e := by
  simp only [RefusesFirst, FirstFailure, Prod.exists, mapped_iff]

theorem not_refusesFirst_nil : ¬ ctx.RefusesFirst [] e :=
  mt refusesFirst_iff.mp not_firstFailure_nil

theorem refusesFirst_cons : ctx.RefusesFirst ((depth, pin) :: rest) e ↔
    ctx.Refuses pin e ∨ ctx.Mapped pin ∧ ctx.RefusesFirst rest e := by
  rw [refusesFirst_iff, refusesFirst_iff, firstFailure_cons, mapped_iff]

theorem not_refusesFirst (mapped : ∀ entry ∈ entries, ctx.Mapped entry.2) :
    ¬ ctx.RefusesFirst entries e := by
  intro first
  obtain ⟨entry, member, refused⟩ := (refusesFirst_iff.mp first).exists_mem
  exact mapped_iff.mp (mapped entry member) e refused

theorem exists_refusesFirst_iff :
    (∃ e, ctx.RefusesFirst entries e) ↔ ∃ depth pin, (depth, pin) ∈ entries ∧ ¬ ctx.Mapped pin := by
  simp only [refusesFirst_iff, exists_firstFailure_iff, mapped_iff, not_forall_not, Prod.exists]

end Context

theorem PathNode.ofPin_eq_error : ofPin ctx pin point = .error e ↔ ctx.Refuses pin e := by
  unfold ofPin
  constructor
  · intro failed
    split at failed
    · next known =>
      split at failed
      · next bare =>
        obtain rfl := Except.error.inj failed
        exact .unmapped known bare
      · split at failed <;> cases failed
    · next absent =>
      obtain rfl := Except.error.inj failed
      exact .unknown (Bool.eq_false_iff.mpr absent)
  · rintro (absent | ⟨known, bare⟩)
    · simp [absent]
    · simp [known, bare]

theorem PathNode.exists_ofPin : (∃ n, ofPin ctx pin point = .ok n) ↔ ctx.Mapped pin := by
  have failed_iff (e : QueryError) : ofPin ctx pin point = .error e ↔ ctx.Refuses pin e :=
    ofPin_eq_error
  rw [Context.mapped_iff]
  simp only [← failed_iff]
  cases ofPin ctx pin point <;> simp

theorem TimingEngine.cone_eq_error {engine : TimingEngine} :
    engine.cone seed direction = .error e ↔
      engine.containsPin seed = false ∧ e = .unknownPin seed := by
  have reach_eq_error (way : Direction) : engine.reach way seed = .error e ↔
      engine.containsPin seed = false ∧ e = .unknownPin seed := by
    unfold reach
    cases engine.containsPin seed <;> cases (engine.pinNet seed).isNone <;> simp [eq_comm]
  cases direction with
  | fanin => exact reach_eq_error .backward
  | fanout => exact reach_eq_error .forward
  | both =>
    simp only [cone, faninCone, fanoutCone, bind_eq_error, reach_eq_error, pure, Except.pure,
      reduceCtorEq, and_false, exists_false, or_false]
    constructor
    · rintro (failed | ⟨_, _, failed⟩)
      · exact failed
      · exact failed
    · exact .inl

namespace ConeBuilder

variable {b : ConeBuilder} {l : NodesByDepth}

theorem nodesOf_eq_error : nodesOf ctx point entries = .error e ↔ ctx.RefusesFirst entries e := by
  induction entries with
  | nil => simp [nodesOf, Context.not_refusesFirst_nil]
  | cons entry rest ih =>
    obtain ⟨depth, pin⟩ := entry
    rw [nodesOf, bind_eq_error, Context.refusesFirst_cons, PathNode.ofPin_eq_error]
    simp only [bind_eq_error, ih, pure, Except.pure, reduceCtorEq, and_false, exists_false,
      or_false, exists_and_right, PathNode.exists_ofPin]

/-- Without a database no depth map can be annotated, not even an empty one. -/
theorem annotate_eq_error : b.annotate point m l = .error e ↔
    b.database = none ∧ e = .noDatabase ∨
      ∃ database, b.database = some database ∧
        Context.RefusesFirst ⟨b.engine, database⟩ m.entries e := by
  unfold annotate
  cases b.database with
  | none => simp [eq_comm]
  | some database =>
    simp [bind_eq_error, nodesOf_eq_error, pure, Except.pure]

/-- The earlier depth map is kept just when the cone itself is not found. -/
theorem build_eq_error : b.build seed direction point earlier = (after, .error e) ↔
    b.engine.cone seed direction = .error e ∧ after = earlier ∨
      b.engine.cone seed direction = .ok after ∧ b.annotate point after .empty = .error e := by
  unfold build
  cases b.engine.cone seed direction with
  | error failed => simp [eq_comm, and_comm]
  | ok m =>
    simp only [Prod.mk.injEq, reduceCtorEq, false_and, false_or, Except.ok.injEq]
    constructor
    · rintro ⟨rfl, failed⟩
      exact ⟨rfl, failed⟩
    · rintro ⟨rfl, failed⟩
      exact ⟨rfl, failed⟩

end ConeBuilder

end TimingExplorer
