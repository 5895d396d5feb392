import TimingExplorer.Design.Search
import TimingExplorer.Proofs.Design.Building
import TimingExplorer.Proofs.Double

/-!
What a search finds. The stored paths that fit have one ranking, by slack and then by id, and the
search answers with the beginning of it.
-/
namespace TimingExplorer

/-- Sorting keeps the order of items that are as good as each other. -/
theorem pairwise_mergeSort_stable {α : Type} {le : α → α → Bool} {before : α → α → Prop}
    {items : List α} (trans : ∀ a b c, le a b = true → le b c = true → le a c = true)
    (total : ∀ a b, (le a b || le b a) = true) (ascending : items.Pairwise before) :
    (items.mergeSort le).Pairwise fun a b => le a b = true ∧ (le b a = true → before a b) := by
  induction ascending with
  | nil => simp
  | @cons first rest earliest _ ih =>
    obtain ⟨better, others, sorted, without, worse⟩ := List.mergeSort_cons trans total first rest
    have ordered := List.pairwise_mergeSort trans total (first :: rest)
    rw [without, List.pairwise_append] at ih
    rw [sorted, List.pairwise_append, List.pairwise_cons] at ordered ⊢
    obtain ⟨_, ⟨least, _⟩, _⟩ := ordered
    have listed {a} (member : a ∈ better ++ others) : a ∈ rest := by
      rwa [← without, List.mem_mergeSort] at member
    refine ⟨ih.1, ⟨fun b member => ?_, ih.2.1⟩, fun a left b right => ?_⟩
    · exact ⟨least b member, fun _ => earliest b (listed (List.mem_append_right _ member))⟩
    · rcases List.mem_cons.mp right with rfl | right
      · have above : le b a = false := by simpa using worse a left
        have below := total a b
        rw [above, Bool.or_false] at below
        exact ⟨below, fun tied => absurd tied (by simp [above])⟩
      · exact ih.2.2 a left b right

namespace Arena

variable {kind : IdKind} {α : Type} {id : Id kind} {item : α}

theorem mem_entries {a : Arena kind α} : (id, item) ∈ a.entries ↔ a.get? id = some item := by
  obtain ⟨raw⟩ := id
  simp only [entries, toList, get?, List.mem_map, Prod.exists, Prod.mk.injEq, Id.mk.injEq,
    List.mem_zipIdx_iff_getElem?, Array.getElem?_toList]
  constructor
  · rintro ⟨_, _, found, rfl, rfl⟩
    exact found
  · intro found
    exact ⟨item, raw, found, rfl, rfl⟩

theorem pairwise_entries (a : Arena kind α) :
    a.entries.Pairwise fun x y => x.1.raw < y.1.raw := by
  rw [entries, List.pairwise_map]
  have positions := List.pairwise_lt_range' (s := 0) (n := a.toList.length)
  rw [← List.zipIdx_map_snd, List.pairwise_map] at positions
  exact positions

end Arena

namespace Design

/-- One path comes before another: its slack is less, or the same and the path was stored first. -/
def Precedes (a b : PathId × StoredPath) : Prop :=
  a.2.summary.slack.TotalLess b.2.summary.slack ∨
    a.2.summary.slack = b.2.summary.slack ∧ a.1.raw < b.1.raw

/-- All paths that fit, most critical first. -/
def ranking (d : Design) (s : PathSearch) : List (PathId × StoredPath) :=
  (d.fittingPaths s).mergeSort fun a b => a.2.summary.slack.le b.2.summary.slack

variable {d : Design} {s : PathSearch} {path : PathId}

theorem mem_ranking {p : StoredPath} : (path, p) ∈ d.ranking s ↔
    d.paths.get? path = some p ∧ p.fits s = true := by
  rw [ranking, List.mem_mergeSort, fittingPaths, List.mem_filter, Arena.mem_entries]

theorem pairwise_ranking (d : Design) (s : PathSearch) : (d.ranking s).Pairwise Precedes := by
  have stable := pairwise_mergeSort_stable
    (fun a b c : PathId × StoredPath => Double.le_trans a.2.summary.slack b.2.summary.slack _)
    (fun a b => Double.le_total _ _) ((d.paths.pairwise_entries).filter fun e => e.2.fits s)
  refine stable.imp fun {a b} ⟨below, tied⟩ => ?_
  simp only [Double.le, decide_eq_true_eq] at below tied
  rcases Int.lt_or_eq_of_le below with less | same
  · exact .inl (Double.totalLess_iff.mpr less)
  · exact .inr ⟨Double.eq_of_rank_eq same, tied (Int.le_of_eq same.symm)⟩

theorem findPaths_eq (d : Design) (s : PathSearch) (bound : Nat) :
    d.findPaths { s with maxPaths := bound } = ((d.ranking s).take bound).map Prod.fst := rfl

theorem Precedes.irrefl (a : PathId × StoredPath) : ¬ Precedes a a := by
  rintro (less | ⟨_, less⟩)
  · exact Int.lt_irrefl _ (Double.totalLess_iff.mp less)
  · exact Nat.lt_irrefl _ less

theorem nodup_ranking_ids (d : Design) (s : PathSearch) : ((d.ranking s).map Prod.fst).Nodup := by
  rw [List.Nodup, List.pairwise_map]
  refine (pairwise_ranking d s).imp_of_mem fun {a b} first second ordered same => ?_
  obtain ⟨path, p⟩ := a
  obtain ⟨_, q⟩ := b
  obtain rfl : path = _ := same
  have found := (mem_ranking.mp first).1.symm.trans (mem_ranking.mp second).1
  obtain rfl := Option.some.inj found
  exact Precedes.irrefl _ ordered

theorem mem_findPaths :
    path ∈ d.findPaths s ↔ ∃ p, (path, p) ∈ (d.ranking s).take s.maxPaths := by
  have found := findPaths_eq d s s.maxPaths
  rw [found, List.mem_map]
  constructor
  · rintro ⟨⟨_, p⟩, taken, rfl⟩
    exact ⟨p, taken⟩
  · rintro ⟨p, taken⟩
    exact ⟨(path, p), taken, rfl⟩

/-- Every path found comes before every path that is left out. -/
theorem precedes_of_left_out {first other : PathId × StoredPath} (ranked : first ∈ d.ranking s)
    (ranked' : other ∈ d.ranking s) (found : first.1 ∈ d.findPaths s)
    (left : other.1 ∉ d.findPaths s) : Precedes first other := by
  obtain ⟨p, taken⟩ := mem_findPaths.mp found
  have stored := (mem_ranking.mp (List.mem_of_mem_take taken)).1
  obtain rfl : first.2 = p := Option.some.inj ((mem_ranking.mp ranked).1.symm.trans stored)
  have ordered := pairwise_ranking d s
  rw [← List.take_append_drop s.maxPaths (d.ranking s)] at ordered ranked'
  rcases List.mem_append.mp ranked' with kept | dropped
  · exact absurd (mem_findPaths.mpr ⟨other.2, kept⟩) left
  · exact (List.pairwise_append.mp ordered).2.2 first taken other dropped

/-- The capture path of another path is not found, however the design is built further. -/
theorem not_mem_findPaths_of_capture {base next : Design} {launch : PathId} {offset : Double}
    {stages : List PathStage} {steps : List BuildStep}
    (added : base.addCapture? launch offset stages = some (path, next))
    (done : next.buildAll? steps = some d) : path ∉ d.findPaths s := by
  obtain ⟨launched, known, result⟩ := Option.map_eq_some_iff.mp added
  obtain ⟨rfl, rfl⟩ := Prod.mk.inj result
  have differs : launch ≠ base.paths.nextId := by
    rintro rfl
    simp [get?_nextId] at known
  have stored : ((base.paths.push (captureOf launched stages)).modify launch fun p =>
      { p with capture := some { path := base.paths.nextId, offset } }).get? base.paths.nextId =
        some (captureOf launched stages) := by
    rw [Arena.get?_modify, if_neg differs, Arena.get?_push, if_pos rfl]
  obtain ⟨_, kept⟩ := buildAll?_paths done stored
  intro member
  obtain ⟨p, taken⟩ := mem_findPaths.mp member
  obtain ⟨found, fits⟩ := mem_ranking.mp (List.mem_of_mem_take taken)
  obtain rfl := Option.some.inj (kept.symm.trans found)
  simp [StoredPath.fits, captureOf] at fits

/-- What a search finds: the beginning of the one ranking of all stored paths that fit. -/
theorem findPaths_ranked (d : Design) (s : PathSearch) : ∃ ranking : List (PathId × StoredPath),
    (∀ path p, (path, p) ∈ ranking ↔ d.paths.get? path = some p ∧ p.fits s = true) ∧
      ranking.Pairwise Precedes ∧
      (∀ bound, d.findPaths { s with maxPaths := bound } = (ranking.take bound).map Prod.fst) ∧
      (d.findPaths s).length = min s.maxPaths ranking.length ∧
      (d.findPaths s).Nodup ∧
      (∀ path ∈ d.findPaths s, ∃ p, d.paths.get? path = some p ∧ p.fits s = true) ∧
      (∀ first ∈ ranking, ∀ other ∈ ranking, first.1 ∈ d.findPaths s →
        other.1 ∉ d.findPaths s → Precedes first other) ∧
      (∀ bound more, bound ≤ more → d.findPaths { s with maxPaths := bound } <+:
        d.findPaths { s with maxPaths := more }) ∧
      ∀ base launch offset stages path next steps,
        Design.addCapture? base launch offset stages = some (path, next) →
        next.buildAll? steps = some d → path ∉ d.findPaths s := by
  have found := findPaths_eq d s s.maxPaths
  refine ⟨d.ranking s, fun _ _ => mem_ranking, pairwise_ranking d s, findPaths_eq d s, ?_, ?_, ?_,
    fun _ ranked _ ranked' => precedes_of_left_out ranked ranked', ?_,
    fun _ _ _ _ _ _ _ => not_mem_findPaths_of_capture⟩
  · rw [found, List.length_map, List.length_take]
  · rw [found]
    exact (nodup_ranking_ids d s).sublist ((List.take_sublist _ _).map _)
  · intro path member
    obtain ⟨p, taken⟩ := mem_findPaths.mp member
    exact ⟨p, mem_ranking.mp (List.mem_of_mem_take taken)⟩
  · intro bound more le
    rw [findPaths_eq, findPaths_eq]
    exact (List.take_prefix_take_left le).map _

end Design

end TimingExplorer
