import Mathlib.Data.List.Sort
import TimingExplorer.Node
import TimingExplorer.Record.Stages

/-!
Which stages of a walk are kept, and where it starts and ends. A walk that begins on the clock
network starts at the last stage of its first clock run, and any other walk at its first stage.
Collapsing drops only stages between two clock stages, so it moves neither this start nor the end of
the walk. What it keeps can be told from whole runs of clock stages: it looks only at the neighbours
of a stage, and these tell whether the stage is an end of its run.
-/
namespace TimingExplorer

/-! ## Start and end -/

variable {α β : Type}

/-- The last of the clock items that a walk begins with, or its first item. -/
def walkStart (isClock : α → Bool) (walk : List α) : Option α :=
  walk[(walk.takeWhile isClock).length - 1]?

theorem walkStart_cons (isClock : α → Bool) (first : α) (rest : List α) :
    walkStart isClock (first :: rest) =
      if isClock first && rest.head?.any isClock then walkStart isClock rest else some first := by
  cases rest with
  | nil => cases clock : isClock first <;> simp [walkStart, clock]
  | cons second rest =>
    cases clock : isClock first <;> cases clock' : isClock second <;>
      simp [walkStart, clock, clock']

theorem walkStart_map (isClock : β → Bool) (f : α → β) (walk : List α) :
    walkStart isClock (walk.map f) = (walkStart (isClock ∘ f) walk).map f := by
  simp only [walkStart, List.takeWhile_map, List.length_map, List.getElem?_map]

theorem head_collapseClock (afterClock : Bool) (stages : List PathStage) :
    (collapseClock afterClock stages).head?.any (·.isClock) = stages.head?.any (·.isClock) := by
  induction stages generalizing afterClock with
  | nil => rfl
  | cons stage rest ih =>
    rw [collapseClock]
    split
    · next dropped =>
      -- What is dropped is a clock stage, and so is the one behind it.
      simp only [Bool.and_eq_true] at dropped
      rw [ih, dropped.2, List.head?_cons, Option.any_some, dropped.1.1]
    · rfl

theorem walkStart_collapseClock (afterClock : Bool) (stages : List PathStage) :
    walkStart (·.isClock) (collapseClock afterClock stages) = walkStart (·.isClock) stages := by
  induction stages generalizing afterClock with
  | nil => rfl
  | cons stage rest ih =>
    rw [collapseClock, walkStart_cons]
    split
    · next dropped =>
      simp only [Bool.and_eq_true] at dropped
      rw [ih, if_pos (by simp only [dropped.1.1, dropped.2, Bool.and_self])]
    · rw [walkStart_cons, head_collapseClock, ih]

theorem getLast?_collapseClock (afterClock : Bool) (stages : List PathStage) :
    (collapseClock afterClock stages).getLast? = stages.getLast? := by
  induction stages generalizing afterClock with
  | nil => rfl
  | cons stage rest ih =>
    rw [collapseClock]
    split
    · next dropped =>
      cases rest with
      | nil => simp at dropped
      | cons second rest => rw [ih, List.getLast?_cons_cons]
    · rw [List.getLast?_cons, List.getLast?_cons, ih]

theorem collapseClock_sublist (afterClock : Bool) (stages : List PathStage) :
    (collapseClock afterClock stages).Sublist stages := by
  induction stages generalizing afterClock with
  | nil => exact .slnil
  | cons stage rest ih =>
    rw [collapseClock]
    split
    · exact (ih stage.isClock).cons stage
    · exact (ih stage.isClock).cons_cons stage

theorem keptStages_sublist (clockExpanded : Bool) (stages : List PathStage) :
    (keptStages clockExpanded stages).Sublist stages := by
  cases clockExpanded with
  | true => exact .refl stages
  | false => exact collapseClock_sublist false stages

theorem walkStart_keptStages (clockExpanded : Bool) (stages : List PathStage) :
    walkStart (·.isClock) (keptStages clockExpanded stages) = walkStart (·.isClock) stages := by
  cases clockExpanded with
  | true => rfl
  | false => exact walkStart_collapseClock false stages

theorem getLast?_keptStages (clockExpanded : Bool) (stages : List PathStage) :
    (keptStages clockExpanded stages).getLast? = stages.getLast? := by
  cases clockExpanded with
  | true => rfl
  | false => exact getLast?_collapseClock false stages

section

variable {stages : List PathStage} {i : Nat}

/-! ## Runs of clock stages -/

/-- A walk has a clock stage at a position. -/
def clockAt (stages : List PathStage) (i : Nat) : Bool := stages[i]?.any (·.isClock)

/-- Clock stages from one position to another that no clock stage stands next to. -/
structure ClockRun (stages : List PathStage) (first last : Nat) : Prop where
  ordered : first ≤ last
  onClock : ∀ i, first ≤ i → i ≤ last → clockAt stages i = true
  before : ∀ i, i + 1 = first → clockAt stages i = false
  after : clockAt stages (last + 1) = false

/-- A position of a walk that holds no clock stage or an end of a run of them. -/
def IsEndOrData (stages : List PathStage) (i : Nat) : Prop :=
  i < stages.length ∧
    (clockAt stages i = false ∨ ∃ first last, ClockRun stages first last ∧ (i = first ∨ i = last))

theorem lt_length_of_clockAt (on : clockAt stages i = true) : i < stages.length := by
  obtain ⟨_, found, _⟩ := (Option.any_eq_true _ _).mp on
  exact (List.getElem?_eq_some_iff.mp found).1

theorem exists_first (on : clockAt stages i = true) : ∃ first ≤ i,
    (∀ j, first ≤ j → j ≤ i → clockAt stages j = true) ∧
      ∀ j, j + 1 = first → clockAt stages j = false := by
  induction i with
  | zero =>
    refine ⟨0, Nat.le_refl 0, fun j _ upper => ?_, fun j none => absurd none (Nat.succ_ne_zero j)⟩
    rwa [Nat.le_zero.mp upper]
  | succ i ih =>
    cases on' : clockAt stages i with
    | false =>
      refine ⟨i + 1, Nat.le_refl _, fun j lower upper => ?_, fun j next => ?_⟩
      · rwa [Nat.le_antisymm upper lower]
      · rwa [Nat.succ.inj next]
    | true =>
      obtain ⟨first, below, within, before⟩ := ih on'
      refine ⟨first, Nat.le_succ_of_le below, fun j lower upper => ?_, before⟩
      rcases Nat.le_succ_iff.mp upper with upper | rfl
      · exact within j lower upper
      · exact on

theorem exists_last (on : clockAt stages i = true) : ∃ last ≥ i,
    (∀ j, i ≤ j → j ≤ last → clockAt stages j = true) ∧ clockAt stages (last + 1) = false := by
  -- The distance to the end of the walk, where there is no clock stage any more.
  induction left : stages.length - i generalizing i with
  | zero => exact absurd (lt_length_of_clockAt on) (by omega)
  | succ n ih =>
    cases on' : clockAt stages (i + 1) with
    | false =>
      refine ⟨i, Nat.le_refl i, fun j lower upper => ?_, on'⟩
      rwa [Nat.le_antisymm upper lower]
    | true =>
      obtain ⟨last, above, within, after⟩ := ih on' (by omega)
      refine ⟨last, Nat.le_of_succ_le above, fun j lower upper => ?_, after⟩
      rcases Nat.eq_or_lt_of_le lower with rfl | lower
      · exact on
      · exact within j lower upper

theorem exists_clockRun (on : clockAt stages i = true) :
    ∃ first last, ClockRun stages first last ∧ first ≤ i ∧ i ≤ last := by
  obtain ⟨first, below, within, before⟩ := exists_first on
  obtain ⟨last, above, within', after⟩ := exists_last on
  refine ⟨first, last, ⟨Nat.le_trans below above, fun j lower upper => ?_, before, after⟩,
    below, above⟩
  rcases Nat.le_total j i with left | right
  · exact within j lower left
  · exact within' j right upper

/-! ## What collapsing keeps -/

/-- The stage at a position and both of its neighbours are on the clock. The first stage has the one
before the walk for a neighbour. -/
def betweenClock (afterClock : Bool) (stages : List PathStage) (i : Nat) : Bool :=
  clockAt stages i && (if i = 0 then afterClock else clockAt stages (i - 1)) &&
    clockAt stages (i + 1)

/-- The positions that collapsing keeps. -/
def keptPositions (afterClock : Bool) (stages : List PathStage) : List Nat :=
  (List.range stages.length).filter (!betweenClock afterClock stages ·)

theorem keptPositions_cons (afterClock : Bool) (stage : PathStage) (rest : List PathStage) :
    keptPositions afterClock (stage :: rest) =
      (if stage.isClock && afterClock && rest.head?.any (·.isClock) then [] else [0]) ++
        (keptPositions stage.isClock rest).map (· + 1) := by
  have here : betweenClock afterClock (stage :: rest) 0 =
      (stage.isClock && afterClock && rest.head?.any (·.isClock)) := by
    rw [List.head?_eq_getElem?]
    rfl
  have later : ((!betweenClock afterClock (stage :: rest) ·) ∘ Nat.succ) =
      (!betweenClock stage.isClock rest ·) := by
    funext i
    cases i <;> rfl
  rw [keptPositions, List.length_cons, List.range_succ_eq_map, List.filter_cons, List.filter_map,
    later, here]
  cases stage.isClock && afterClock && rest.head?.any (·.isClock) <;> rfl

theorem collapseClock_eq (afterClock : Bool) (stages : List PathStage) :
    (collapseClock afterClock stages).map some =
      (keptPositions afterClock stages).map (stages[·]?) := by
  induction stages generalizing afterClock with
  | nil => rfl
  | cons stage rest ih =>
    have later : ((keptPositions stage.isClock rest).map (· + 1)).map ((stage :: rest)[·]?) =
        (collapseClock stage.isClock rest).map some := by
      rw [ih, List.map_map]
      rfl
    rw [collapseClock, keptPositions_cons, List.map_append, later]
    split <;> rfl

theorem betweenClock_eq_false_iff (on : clockAt stages i = true) :
    betweenClock false stages i = false ↔
      ∃ first last, ClockRun stages first last ∧ (i = first ∨ i = last) := by
  rw [betweenClock, on, Bool.true_and, Bool.and_eq_false_iff]
  constructor
  · intro apart
    obtain ⟨first, last, run, below, above⟩ := exists_clockRun on
    refine ⟨first, last, run, ?_⟩
    rcases apart with before | after
    · -- With no clock stage before it, the stage is the first one of its run.
      refine .inl (Nat.le_antisymm (Nat.le_of_not_lt fun within => ?_) below)
      rw [if_neg (by omega), run.onClock (i - 1) (by omega) (by omega)] at before
      cases before
    · refine .inr (Nat.le_antisymm above (Nat.le_of_not_lt fun within => ?_))
      rw [run.onClock (i + 1) (by omega) within] at after
      cases after
  · rintro ⟨first, last, run, rfl | rfl⟩
    · refine .inl ?_
      split
      · rfl
      · exact run.before _ (by omega)
    · exact .inr run.after

theorem mem_keptPositions : i ∈ keptPositions false stages ↔ IsEndOrData stages i := by
  rw [keptPositions, List.mem_filter, List.mem_range, IsEndOrData, Bool.not_eq_eq_eq_not,
    Bool.not_true]
  cases on : clockAt stages i with
  | false => simp [betweenClock, on]
  | true => simp [betweenClock_eq_false_iff on]

theorem pairwise_keptPositions (afterClock : Bool) (stages : List PathStage) :
    (keptPositions afterClock stages).Pairwise (· < ·) := List.pairwise_lt_range.filter _

/-- Which stages of a walk are kept, in order: all of them, or with the clock collapsed those that
are not on the clock network and both ends of each run of clock stages. -/
def Kept : Bool → List PathStage → List PathStage → Prop
  | true, stages, kept => kept = stages
  | false, stages, kept => ∃ positions : List Nat, positions.Pairwise (· < ·) ∧
      (∀ i, i ∈ positions ↔ IsEndOrData stages i) ∧ kept.map some = positions.map (stages[·]?)

theorem kept_iff {clockExpanded : Bool} {kept : List PathStage} :
    Kept clockExpanded stages kept ↔ kept = keptStages clockExpanded stages := by
  cases clockExpanded with
  | true => rfl
  | false =>
    have collapsed := collapseClock_eq false stages
    constructor
    · rintro ⟨positions, ascending, which, places⟩
      have same : positions = keptPositions false stages :=
        ascending.eq_of_mem_iff (pairwise_keptPositions false stages) fun i =>
          (which i).trans mem_keptPositions.symm
      refine List.map_injective_iff.mpr (fun _ _ => Option.some.inj) ?_
      rw [places, same, ← collapsed]
      rfl
    · rintro rfl
      exact ⟨_, pairwise_keptPositions false stages, fun _ => mem_keptPositions, collapsed⟩

end

/-! ## The clock part of a sequence

Where it ends follows from the roles of the nodes. -/

theorem neg_one_le_clockEndIndex (nodes : List PathNode) : -1 ≤ clockEndIndex nodes := by
  rw [clockEndIndex]
  split <;> omega

theorem clockEndIndex_le_length (nodes : List PathNode) :
    clockEndIndex nodes ≤ nodes.length := by
  have inside : nodes.findIdx (!·.flags.isClock) ≤ nodes.length := List.findIdx_le_length
  rw [clockEndIndex]
  split <;> omega

theorem clockEndIndex_congr {nodes nodes' : List PathNode}
    (same : nodes.map (·.flags) = nodes'.map (·.flags)) :
    clockEndIndex nodes = clockEndIndex nodes' := by
  have position (nodes : List PathNode) : nodes.findIdx (!·.flags.isClock) =
      (nodes.map (·.flags)).findIdx (!·.isClock) := by
    rw [List.findIdx_map]
    rfl
  have length := congrArg List.length same
  rw [List.length_map, List.length_map] at length
  simp only [clockEndIndex, position, same, List.isEmpty_iff_length_eq_zero, length]

theorem clockEndIndex_of_ne_nil {nodes : List PathNode} (nonempty : nodes ≠ []) :
    clockEndIndex nodes = (nodes.takeWhile (·.flags.isClock)).length := by
  have position : nodes.findIdx (!·.flags.isClock) =
      (nodes.takeWhile (·.flags.isClock)).length := by
    rw [List.takeWhile_eq_take_findIdx_not, List.length_take]
    exact (Nat.min_eq_left List.findIdx_le_length).symm
  rw [clockEndIndex, if_neg (by simpa using nonempty), position]

/-- The node before the end of the clock part, or the first node where there is no clock part, is
the one that the walk starts at. -/
theorem getElem?_clockEndIndex (nodes : List PathNode) :
    nodes[(max (clockEndIndex nodes - 1) 0).toNat]? = walkStart (·.flags.isClock) nodes := by
  by_cases empty : nodes = []
  · subst empty
    rfl
  · have position : (max (clockEndIndex nodes - 1) 0).toNat =
        (nodes.takeWhile (·.flags.isClock)).length - 1 := by
      rw [clockEndIndex_of_ne_nil empty]
      omega
    rw [walkStart, position]

end TimingExplorer
