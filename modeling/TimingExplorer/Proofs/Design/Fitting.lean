import Mathlib.Data.List.Forall2
import TimingExplorer.Design.Search
import TimingExplorer.Proofs.Record.Stages

/-!
Which stored paths fit a search. Each group takes the first stage that it can, and that leaves the
later groups every stage that any other choice would leave them: a path that can be passed at all is
passed this way. The same decision made position by position never looks outside of the path.
-/
namespace TimingExplorer

/-- Positions of a walk, each after the one before, whose pins lie in the groups. -/
structure Passes (groups : List PinSet) (walk : List PinId) (positions : List Nat) : Prop where
  ascending : positions.Pairwise (· < ·)
  inside : List.Forall₂ (fun group i => ∃ pin, walk[i]? = some pin ∧ pin ∈ group) groups positions

namespace Passes

variable {groups : List PinSet} {group : PinSet} {walk : List PinId} {pin : PinId}
  {position : Nat} {positions : List Nat}

theorem later (passes : Passes groups walk positions) (pin : PinId) :
    Passes groups (pin :: walk) (positions.map (· + 1)) := by
  obtain ⟨ascending, inside⟩ := passes
  constructor
  · rw [List.pairwise_map]
    exact ascending.imp fun before => Nat.succ_lt_succ before
  · rw [List.forall₂_map_right_iff]
    exact inside.imp fun _ _ found => by rwa [List.getElem?_cons_succ]

theorem here (passes : Passes groups walk positions) (member : pin ∈ group) :
    Passes (group :: groups) (pin :: walk) (0 :: positions.map (· + 1)) := by
  obtain ⟨ascending, inside⟩ := passes.later pin
  constructor
  · refine List.pairwise_cons.mpr ⟨fun i shifted => ?_, ascending⟩
    obtain ⟨_, _, rfl⟩ := List.mem_map.mp shifted
    exact Nat.succ_pos _
  · exact .cons ⟨pin, rfl, member⟩ inside

/-- Positions that leave out the first pin are positions of the rest. -/
theorem earlier (passes : Passes groups (pin :: walk) positions)
    (behind : ∀ i ∈ positions, 0 < i) : Passes groups walk (positions.map (· - 1)) := by
  obtain ⟨ascending, inside⟩ := passes
  constructor
  · rw [List.pairwise_map]
    refine ascending.imp_of_mem fun {i j} first second before => ?_
    have := behind i first
    have := behind j second
    omega
  · rw [List.forall₂_map_right_iff]
    have placed : ∀ i ∈ positions, (pin :: walk)[i]? = walk[i - 1]? := by
      intro i member
      obtain ⟨i, rfl⟩ := Nat.exists_eq_succ_of_ne_zero (Nat.ne_of_gt (behind i member))
      exact List.getElem?_cons_succ
    clear ascending behind
    induction inside with
    | nil => exact .nil
    | @cons group i groups positions first _ ih =>
      obtain ⟨here, others⟩ := List.forall_mem_cons.mp placed
      obtain ⟨pin, found, member⟩ := first
      exact .cons ⟨pin, here ▸ found, member⟩ (ih others)

/-- The groups after the first one pass behind its position. -/
theorem tail (passes : Passes (group :: groups) walk (position :: positions)) :
    Passes groups walk positions ∧ ∀ i ∈ positions, position < i := by
  obtain ⟨ascending, inside⟩ := passes
  obtain ⟨least, ascending⟩ := List.pairwise_cons.mp ascending
  obtain ⟨_, inside⟩ := List.forall₂_cons.mp inside
  exact ⟨⟨ascending, inside⟩, least⟩

end Passes

namespace Design.StoredPath

variable {group : PinSet} {groups : List PinSet} {stages rest : List PathStage} {p : StoredPath}
  {search : PathSearch} {stage first : PathStage} {cursor : Nat} {positions : List Nat}

/-! ## The groups between the ends -/

theorem exists_passes (met : meets groups stages = true) :
    ∃ positions, Passes groups (stages.map (·.pin)) positions := by
  fun_induction meets groups stages with
  | case1 => exact ⟨[], .nil, .nil⟩
  | case2 => cases met
  | case3 group groups stage stages hit ih =>
    obtain ⟨positions, passes⟩ := ih met
    exact ⟨_, passes.here (Std.TreeSet.contains_iff_mem.mp hit)⟩
  | case4 group groups stage stages _ ih =>
    obtain ⟨positions, passes⟩ := ih met
    exact ⟨_, passes.later _⟩

theorem meets_of_passes (passes : Passes groups (stages.map (·.pin)) positions) :
    meets groups stages = true := by
  fun_induction meets groups stages generalizing positions with
  | case1 => rfl
  | case2 group groups =>
    obtain ⟨_, inside⟩ := passes
    cases inside with
    | cons first _ =>
      obtain ⟨_, found, _⟩ := first
      cases found
  | case3 group groups stage stages _ ih =>
    -- Whichever stage the first group had, the others come after this one too.
    cases positions with
    | nil => cases passes.inside
    | cons position positions =>
      obtain ⟨others, behind⟩ := passes.tail
      exact ih (others.earlier fun i member => Nat.zero_lt_of_lt (behind i member))
  | case4 group groups stage stages missed ih =>
    cases positions with
    | nil => cases passes.inside
    | cons position positions =>
      have behind : 0 < position := by
        obtain ⟨⟨pin, found, member⟩, _⟩ := List.forall₂_cons.mp passes.inside
        refine Nat.pos_of_ne_zero ?_
        rintro rfl
        obtain rfl : stage.pin = pin := Option.some.inj found
        exact missed (Std.TreeSet.contains_iff_mem.mpr member)
      refine ih (passes.earlier (List.forall_mem_cons.mpr ⟨behind, fun i member => ?_⟩))
      exact Nat.lt_trans behind (passes.tail.2 i member)

theorem meets_iff : meets groups stages = true ↔
    ∃ positions, Passes groups (stages.map (·.pin)) positions :=
  ⟨exists_passes, fun ⟨_, passes⟩ => meets_of_passes passes⟩

/-! ## The ends -/

/-- The stage that a walk starts at: its first one if that is not on the clock, otherwise the last
one of the clock stages that it begins with. -/
inductive StartsAt : List PathStage → PathStage → Prop where
  | data {first : PathStage} {rest : List PathStage} (off : first.isClock = false) :
      StartsAt (first :: rest) first
  | clock {run rest : List PathStage} {last : PathStage}
      (on : ∀ stage ∈ run ++ [last], stage.isClock = true)
      (ends : ∀ next, rest.head? = some next → next.isClock = false) :
      StartsAt (run ++ last :: rest) last

theorem walkStart_of_startsAt (starts : StartsAt stages stage) :
    walkStart (·.isClock) stages = some stage := by
  cases starts with
  | data off => rw [walkStart_cons, off, Bool.false_and, if_neg Bool.false_ne_true]
  | @clock run rest _ on ends =>
    induction run with
    | nil =>
      have behind : rest.head?.any (·.isClock) = false := by
        rw [Option.any_eq_false]
        exact fun next head => by simp [ends next head]
      rw [List.nil_append, walkStart_cons, behind, Bool.and_false, if_neg Bool.false_ne_true]
    | cons first run ih =>
      obtain ⟨here, later⟩ := List.forall_mem_cons.mp on
      have behind : (run ++ stage :: rest).head?.any (·.isClock) = true := by
        cases run with
        | nil => exact later stage List.mem_cons_self
        | cons second run => exact later second List.mem_cons_self
      rw [List.cons_append, walkStart_cons, if_pos (by rw [here, behind]; rfl)]
      exact ih later

/-- A clock stage before the clock stages that a walk begins with. -/
theorem StartsAt.grow (starts : StartsAt stages stage) (on : first.isClock = true)
    (on' : stages.head?.any (·.isClock) = true) : StartsAt (first :: stages) stage := by
  cases starts with
  | data off => exact absurd on' (by simp [off])
  | @clock run rest _ within ends =>
    exact @StartsAt.clock (first :: run) rest stage (List.forall_mem_cons.mpr ⟨on, within⟩) ends

theorem startsAt_of_walkStart (found : walkStart (·.isClock) stages = some stage) :
    StartsAt stages stage := by
  induction stages with
  | nil => cases found
  | cons first rest ih =>
    rw [walkStart_cons] at found
    split at found
    · next inside =>
      obtain ⟨on, on'⟩ := Bool.and_eq_true_iff.mp inside
      exact (ih found).grow on on'
    · next outside =>
      obtain rfl := Option.some.inj found
      cases on : first.isClock with
      | false => exact .data on
      | true =>
        refine @StartsAt.clock [] rest first (List.forall_mem_singleton.mpr on) fun next head => ?_
        simpa [on, head] using outside

theorem startStage?_eq_some_iff : p.startStage? = some stage ↔ StartsAt p.stages stage :=
  ⟨startsAt_of_walkStart, walkStart_of_startsAt⟩

theorem any_accepts_iff {found : Option PathStage} :
    found.any (accepts group ·.pin) = true ↔
      (∃ stage, found = some stage) ∧
        (group.isEmpty = true ∨ ∃ stage, found = some stage ∧ stage.pin ∈ group) := by
  cases found with
  | none => simp
  | some stage => simp [accepts, Std.TreeSet.contains_iff_mem]

theorem mem_of_accepts {group : PinSet} {pin : PinId} (accepted : accepts group pin = true)
    (asked : group.isEmpty = false) : pin ∈ group := by
  rw [accepts, asked, Bool.false_or] at accepted
  exact Std.TreeSet.contains_iff_mem.mp accepted

theorem of_fits {search : PathSearch} (p : StoredPath) (fits : p.fits search = true) :
    (∃ first, p.startStage? = some first ∧ accepts search.starts first.pin = true) ∧
      (∃ last, p.stages.getLast? = some last ∧ accepts search.ends last.pin = true) ∧
      meets search.throughs p.stages = true := by
  simp only [StoredPath.fits, Bool.and_eq_true, Option.any_eq_true] at fits
  obtain ⟨⟨⟨_, start⟩, last⟩, met⟩ := fits
  exact ⟨start, last, met⟩

/-! ## Position by position -/

/-- Whether the groups are met from a position on. There is no answer where the position lies behind
the end of the walk. -/
def meetsFrom? (stages : List PathStage) : Nat → List PinSet → Option Bool
  | _, [] => some true
  | cursor, group :: groups =>
    if cursor ≤ stages.length then
      match (stages.drop cursor).findIdx? fun stage => group.contains stage.pin with
      | some offset => meetsFrom? stages (cursor + (offset + 1)) groups
      | none => some false
    else none

/-- Whether a path fits a search, decided position by position. There is no answer where a position
is looked at that the path does not have. -/
def fitsByPosition? (p : StoredPath) (s : PathSearch) : Option Bool :=
  if !p.searchable || p.point ≠ s.point || p.stages.isEmpty then some false
  else if p.summary.slack.isInfinite && !s.unconstrained then some false
  else do
    let start ← p.stages[(p.stages.takeWhile (·.isClock)).length - 1]?
    if !accepts s.starts start.pin then return false
    let last ← p.stages[p.stages.length - 1]?
    if !accepts s.ends last.pin then return false
    meetsFrom? p.stages 0 s.throughs

theorem meets_cons (group : PinSet) (groups : List PinSet) (stages : List PathStage) :
    meets (group :: groups) stages =
      match stages.findIdx? fun stage => group.contains stage.pin with
      | some offset => meets groups (stages.drop (offset + 1))
      | none => false := by
  induction stages with
  | nil => rfl
  | cons stage rest ih =>
    rw [meets, List.findIdx?_cons]
    split
    · rfl
    · rw [ih]
      cases rest.findIdx? fun stage => group.contains stage.pin <;> rfl

theorem meetsFrom?_eq (inside : cursor ≤ stages.length) :
    meetsFrom? stages cursor groups = some (meets groups (stages.drop cursor)) := by
  induction groups generalizing cursor with
  | nil => simp [meetsFrom?, meets]
  | cons group groups ih =>
    rw [meetsFrom?, if_pos inside, meets_cons]
    cases found : (stages.drop cursor).findIdx? fun stage => group.contains stage.pin with
    | none => rfl
    | some offset =>
      have within : offset < (stages.drop cursor).length :=
        (List.findIdx?_eq_some_iff_getElem.mp found).1
      rw [List.length_drop] at within
      dsimp only
      rw [ih (by omega), List.drop_drop]

theorem exists_startStage (nonempty : p.stages ≠ []) : ∃ stage, p.startStage? = some stage := by
  have inside : (p.stages.takeWhile (·.isClock)).length - 1 < p.stages.length := by
    have := (List.takeWhile_sublist (·.isClock) (l := p.stages)).length_le
    have := List.length_pos_iff.mpr nonempty
    omega
  exact ⟨_, List.getElem?_eq_getElem inside⟩

theorem fitsByPosition?_eq (p : StoredPath) (s : PathSearch) :
    p.fitsByPosition? s = some (p.fits s) := by
  rw [fitsByPosition?, fits]
  by_cases empty : p.stages = []
  · simp [startStage?, empty]
  · obtain ⟨first, start⟩ := exists_startStage empty
    have last : p.stages[p.stages.length - 1]? = some (p.stages.getLast empty) := by
      rw [← List.getLast?_eq_getElem?, List.getLast?_eq_some_getLast empty]
    rw [← startStage?, start, last, meetsFrom?_eq (Nat.zero_le _), List.drop_zero,
      List.getLast?_eq_some_getLast empty]
    simp only [ne_eq, decide_not, List.isEmpty_eq_false_iff.mpr empty, Option.any_some,
      Option.bind_eq_bind, Option.bind_some]
    -- No position fails any more, so that both sides combine the same tests.
    generalize p.searchable = searchable, decide (p.point = s.point) = point,
      p.summary.slack.isInfinite = infinite, s.unconstrained = unconstrained,
      accepts s.starts first.pin = starts, accepts s.ends (p.stages.getLast empty).pin = ends,
      meets s.throughs p.stages = met
    revert searchable point infinite unconstrained starts ends met
    decide

/-- When a stored path fits a search. The decision never looks at a position that the path does not
have. Groups are met if there are positions for them at all, each after the one before: that each
group takes the first stage that it can loses nothing. -/
theorem fits_iff (p : StoredPath) (s : PathSearch) :
    p.fitsByPosition? s = some (p.fits s) ∧
      (p.fits s = true ↔ p.searchable = true ∧ p.point = s.point ∧ p.stages ≠ [] ∧
        (p.summary.slack.isInfinite = false ∨ s.unconstrained = true) ∧
        (s.starts.isEmpty = true ∨ ∃ stage, StartsAt p.stages stage ∧ stage.pin ∈ s.starts) ∧
        (s.ends.isEmpty = true ∨
          ∃ stage, p.stages.getLast? = some stage ∧ stage.pin ∈ s.ends) ∧
        ∃ positions, Passes s.throughs (p.stages.map (·.pin)) positions) := by
  refine ⟨fitsByPosition?_eq p s, ?_⟩
  have starts : (∃ stage, StartsAt p.stages stage) ↔ p.stages ≠ [] := by
    simp only [← startStage?_eq_some_iff]
    refine ⟨?_, exists_startStage⟩
    rintro ⟨stage, found⟩ empty
    rw [startStage?, empty] at found
    cases found
  have ends : (∃ stage, p.stages.getLast? = some stage) ↔ p.stages ≠ [] := by
    rw [← Option.isSome_iff_exists, List.getLast?_isSome]
  simp only [fits, Bool.and_eq_true, Bool.or_eq_true, Bool.not_eq_eq_eq_not, Bool.not_true,
    decide_eq_true_eq, any_accepts_iff, meets_iff, startStage?_eq_some_iff, starts, ends]
  constructor
  · rintro ⟨⟨⟨⟨⟨searchable, point⟩, slack⟩, nonempty, start⟩, _, last⟩, met⟩
    exact ⟨searchable, point, nonempty, slack.symm, start, last, met⟩
  · rintro ⟨searchable, point, nonempty, slack, start, last, met⟩
    exact ⟨⟨⟨⟨⟨searchable, point⟩, slack.symm⟩, nonempty, start⟩, nonempty, last⟩, met⟩

end Design.StoredPath

end TimingExplorer
