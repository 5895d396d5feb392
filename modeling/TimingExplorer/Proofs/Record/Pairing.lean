import Mathlib.Data.List.Nodup
import TimingExplorer.Proofs.Query.Records
import TimingExplorer.Proofs.Record.Linking

/-!
Which nodes of a record are paired once it is finished. A capture node is joined with the last
launch node on its pin, and there are no other pairs, since all nodes were new before. So pairing
once more finds all pairs made.
-/
namespace TimingExplorer

theorem insert_eq_self {κ : Type} [Ord κ] [Std.TransOrd κ] {s : Std.TreeSet κ} {item : κ}
    (member : item ∈ s) : s.insert item = s := by
  have present : s.inner.inner.inner.contains item = true := member
  unfold Std.TreeSet.insert Std.TreeMap.insertIfNew Std.DTreeMap.insertIfNew
  unfold Std.DTreeMap.Internal.Impl.insertIfNew
  simp only [present, if_true]

namespace NodeArena

variable {a : NodeArena} {x y : NodeId}

theorem modify_insert_paired (linked : a.Linked .pair x y) :
    (a.modify x fun n => { n with paired := n.paired.insert y }) = a := by
  refine congrArg NodeArena.mk (Arena.modify_eq_self fun n found => ?_)
  obtain ⟨n', found', member⟩ := linked
  obtain rfl := Option.some.inj (found.symm.trans found')
  rw [insert_eq_self member]

/-- Pairing nodes that are paired changes nothing. -/
theorem pair_eq_self (first : a.Linked .pair x y) (second : a.Linked .pair y x) :
    (a.pair x y).2 = a := by
  unfold pair
  split
  · dsimp only
    rw [modify_insert_paired first, modify_insert_paired second]
  · rfl

end NodeArena

namespace PathRecord

open NodeArena

variable {r : PathRecord} {x y : NodeId} {pin : PinId}

/-- The pin of a node of the record. -/
def pinAt (r : PathRecord) (id : NodeId) : Option PinId := (r.nodes.get? id).map (·.pin)

/-- The last node of the launch side on a pin. -/
def LastLaunch (r : PathRecord) (pin : PinId) (x : NodeId) : Prop :=
  r.pinAt x = some pin ∧ ∃ before after, r.launchIds = before ++ x :: after ∧
    ∀ y ∈ after, r.pinAt y ≠ some pin

theorem getElem?_launchByPin (r : PathRecord) (pin : PinId) :
    r.launchByPin[pin]? = r.launchIds.reverse.find? fun id => r.pinAt id = some pin := by
  let entry (id : NodeId) : Option (PinId × NodeId) := (r.nodes.get? id).map fun n => (n.pin, id)
  have here (id : NodeId) : (entry id).any (·.1 = pin) = decide (r.pinAt id = some pin) := by
    unfold entry pinAt
    cases r.nodes.get? id with
    | none => rfl
    | some n => simp
  -- A node that comes later takes the place of an earlier one on its pin.
  change (Std.TreeMap.ofList (r.launchIds.filterMap entry))[pin]? = _
  rw [getElem?_ofList, ← List.filterMap_reverse, List.find?_filterMap]
  simp only [here]
  cases found : r.launchIds.reverse.find? fun id => r.pinAt id = some pin with
  | none => rfl
  | some id =>
    obtain ⟨same, -⟩ := List.find?_eq_some_iff_append.mp found
    obtain ⟨n, stored, rfl⟩ := Option.map_eq_some_iff.mp (of_decide_eq_true same)
    rw [Option.bind_some, show entry id = some (n.pin, id) from congrArg (Option.map _) stored]
    rfl

theorem lastLaunch_iff : r.LastLaunch pin x ↔ r.launchByPin[pin]? = some x := by
  rw [getElem?_launchByPin, List.find?_eq_some_iff_append]
  simp only [decide_eq_true_eq, Bool.not_eq_eq_eq_not, Bool.not_true, decide_eq_false_iff_not]
  refine and_congr_right fun _ => ?_
  constructor
  · rintro ⟨before, after, split, others⟩
    refine ⟨after.reverse, before.reverse, by simp [split], ?_⟩
    intro y member
    exact others y (List.mem_reverse.mp member)
  · rintro ⟨after, before, split, others⟩
    refine ⟨before.reverse, after.reverse, ?_, ?_⟩
    · rw [← List.reverse_reverse r.launchIds, split]
      simp
    · intro y member
      exact others y (List.mem_reverse.mp member)

theorem LastLaunch.mem (last : r.LastLaunch pin x) : x ∈ r.launchIds := by
  obtain ⟨_, before, after, split, _⟩ := last
  rw [split]
  exact List.mem_append_right _ List.mem_cons_self

theorem LastLaunch.unique (first : r.LastLaunch pin x) (second : r.LastLaunch pin y) : x = y :=
  Option.some.inj ((lastLaunch_iff.mp first).symm.trans (lastLaunch_iff.mp second))

/-- There is a last launch node on every pin that some launch node stands on. -/
theorem exists_lastLaunch (listed : x ∈ r.launchIds) (here : r.pinAt x = some pin) :
    ∃ y, r.LastLaunch pin y := by
  simp only [lastLaunch_iff, getElem?_launchByPin]
  rw [← Option.isSome_iff_exists, List.find?_isSome]
  exact ⟨x, List.mem_reverse.mpr listed, decide_eq_true here⟩

/-- A capture node stands on a pin of the launch side, whose last node there is given. -/
def Meets (r : PathRecord) (x y : NodeId) : Prop :=
  y ∈ r.captureIds ∧ ∃ pin, r.pinAt y = some pin ∧ r.LastLaunch pin x

theorem Meets.mem (meets : r.Meets x y) : x ∈ r.launchIds := by
  obtain ⟨_, pin, _, last⟩ := meets
  exact last.mem

theorem Partitioned.not_both (whole : r.Partitioned) (first : x ∈ r.launchIds) :
    x ∉ r.captureIds := by
  have launched : x ∈ r.ids .launch := first
  exact whole.apart launched

theorem mem_commonPairs_iff : (x, y) ∈ r.commonPairs ↔ r.Meets x y := by
  simp only [commonPairs, Meets, lastLaunch_iff, pinAt, List.mem_filterMap, Option.bind_eq_some_iff,
    Option.map_eq_some_iff, Prod.mk.injEq]
  constructor
  · rintro ⟨_, listed, n, found, launch, last, rfl, rfl⟩
    exact ⟨listed, n.pin, ⟨n, found, rfl⟩, last⟩
  · rintro ⟨listed, _, ⟨n, found, rfl⟩, last⟩
    exact ⟨y, listed, n, found, x, last, rfl, rfl⟩

/-- Pairing adds just these links. -/
theorem linked_pairCommonNodes (whole : r.Partitioned) (x y : NodeId) :
    r.pairCommonNodes.nodes.Linked .pair x y ↔
      r.nodes.Linked .pair x y ∨ r.Meets x y ∨ r.Meets y x := by
  let inv (a : NodeArena) : Prop := ∀ id, a.contains id = r.nodes.contains id
  have step : ∀ a, inv a → ∀ entry ∈ r.commonPairs, inv (a.pair entry.1 entry.2).2 ∧
      ((a.pair entry.1 entry.2).2.Linked .pair x y ↔ a.Linked .pair x y ∨
        (x = entry.1 ∧ y = entry.2 ∨ x = entry.2 ∧ y = entry.1)) := by
    rintro a held ⟨launch, capture⟩ member
    have meets := mem_commonPairs_iff.mp member
    have first : launch ∈ r.ids .launch := meets.mem
    have second : capture ∈ r.ids .capture := meets.1
    have differs : launch ≠ capture := by
      rintro rfl
      exact whole.apart first second
    have linkable : a.linkable launch capture = true := by
      simp only [NodeArena.linkable, Bool.and_eq_true, decide_eq_true_eq]
      exact ⟨⟨differs, (held launch).trans (whole.contains first)⟩,
        (held capture).trans (whole.contains second)⟩
    refine ⟨fun id => (contains_pair ..).trans (held id), ?_⟩
    rw [linked_pair, linkable, and_iff_right rfl]
  have after := paired_foldl inv step fun _ => rfl
  refine after.trans (or_congr_right ?_)
  constructor
  · rintro ⟨⟨launch, capture⟩, member, ⟨rfl, rfl⟩ | ⟨rfl, rfl⟩⟩
    · exact .inl (mem_commonPairs_iff.mp member)
    · exact .inr (mem_commonPairs_iff.mp member)
  · rintro (meets | meets)
    · exact ⟨(x, y), mem_commonPairs_iff.mpr meets, .inl ⟨rfl, rfl⟩⟩
    · exact ⟨(y, x), mem_commonPairs_iff.mpr meets, .inr ⟨rfl, rfl⟩⟩

/-! A finished record. -/

/-- A record whose pairs are just those that pairing makes. -/
structure PairedByPin (r : PathRecord) : Prop where
  linked : r.WellLinked
  paired_iff : ∀ x y, r.nodes.Linked .pair x y ↔ r.Meets x y ∨ r.Meets y x

theorem pinAt_eq (r : PathRecord) (id : NodeId) : r.pinAt id = (r.nodes.role id).map Prod.fst := by
  rw [role, Option.map_map]
  rfl

theorem Meets.of_same {r' : PathRecord} (launchIds : r'.launchIds = r.launchIds)
    (captureIds : r'.captureIds = r.captureIds) (pins : r'.pinAt = r.pinAt) :
    r'.Meets x y ↔ r.Meets x y := by
  simp only [Meets, LastLaunch, launchIds, captureIds, pins]

/-- The last steps of making a record, where no nodes have been paired before. -/
theorem PairedByPin.finish (linked : r.WellLinked) (unpaired : ∀ x y, ¬ r.nodes.Linked .pair x y) :
    r.pairCommonNodes.computeClockEnds.spreadSlack.PairedByPin where
  linked := linked.run [.pairCommonNodes, .computeClockEnds, .spreadSlack]
  paired_iff x y := by
    obtain ⟨roles, links⟩ := frame_setSlackAll r.slack r.launchIds r.pairCommonNodes.nodes
    have pins : r.pairCommonNodes.computeClockEnds.spreadSlack.pinAt = r.pinAt := by
      funext id
      rw [pinAt_eq, pinAt_eq, ← r.role_pairCommonNodes]
      exact congrArg (Option.map _) (roles id)
    have meets (x y : NodeId) :
        r.pairCommonNodes.computeClockEnds.spreadSlack.Meets x y ↔ r.Meets x y :=
      Meets.of_same rfl rfl pins
    rw [meets, meets]
    refine (links .pair x y).trans ?_
    rw [linked_pairCommonNodes linked.whole, or_iff_right (unpaired x y)]

namespace PairedByPin

theorem paired_sides_iff (paired : r.PairedByPin) (first : x ∈ r.launchIds) :
    r.nodes.Linked .pair x y ↔ r.Meets x y := by
  rw [paired.paired_iff, or_iff_left]
  intro meets
  exact paired.linked.whole.not_both first meets.1

/-- Pairing a finished record once more changes nothing. -/
theorem pairCommonNodes_eq (paired : r.PairedByPin) : r.pairCommonNodes = r := by
  have kept {pairs : List (NodeId × NodeId)} (made : ∀ entry ∈ pairs, r.Meets entry.1 entry.2) :
      pairs.foldl (fun nodes entry => (nodes.pair entry.1 entry.2).2) r.nodes = r.nodes := by
    induction pairs with
    | nil => rfl
    | cons entry rest ih =>
      obtain ⟨meets, made⟩ := List.forall_mem_cons.mp made
      have first := (paired.paired_iff entry.1 entry.2).mpr (.inl meets)
      have second := (paired.paired_iff entry.2 entry.1).mpr (.inr meets)
      rw [List.foldl_cons, pair_eq_self first second]
      exact ih made
  have nodes := kept fun _ member => mem_commonPairs_iff.mp member
  exact congrArg (fun nodes => { r with nodes }) nodes

/-- A capture node is paired with the last launch node on its pin, if there is one. -/
theorem mem_paired_iff (paired : r.PairedByPin) (listed : y ∈ r.captureIds) {n : PathNode}
    (found : r.nodes.get? y = some n) : x ∈ n.paired ↔ r.LastLaunch n.pin x := by
  have here : r.pinAt y = some n.pin := by rw [pinAt, found, Option.map_some]
  have linked : r.nodes.Linked .pair y x ↔ x ∈ n.paired := linked_iff found
  rw [← linked, paired.paired_iff]
  constructor
  · rintro (meets | ⟨_, pin, here', last⟩)
    · exact absurd listed (paired.linked.whole.not_both meets.mem)
    · obtain rfl := Option.some.inj (here.symm.trans here')
      exact last
  · intro last
    exact .inr ⟨listed, n.pin, here, last⟩

theorem exists_capture (paired : r.PairedByPin) (listed : y ∈ r.captureIds) :
    ∃ n, r.nodes.get? y = some n :=
  (mem_ids_iff paired.linked.whole y).mp (List.mem_append_right _ listed)

/-- A capture node has one partner or none. -/
theorem partners_of_capture (paired : r.PairedByPin) (listed : y ∈ r.captureIds) : ∃ n,
    r.nodes.get? y = some n ∧
      ((∃ x ∈ r.launchIds, r.pinAt x = some n.pin) →
        ∃ x ∈ r.launchIds, ∀ z, z ∈ n.paired ↔ z = x) ∧
      ((∀ x ∈ r.launchIds, r.pinAt x ≠ some n.pin) → n.paired.isEmpty = true) := by
  obtain ⟨n, found⟩ := paired.exists_capture listed
  refine ⟨n, found, ?_, ?_⟩
  · rintro ⟨x, launched, here⟩
    obtain ⟨x, last⟩ := exists_lastLaunch launched here
    refine ⟨x, last.mem, ?_⟩
    intro z
    rw [paired.mem_paired_iff listed found]
    constructor
    · intro also
      exact also.unique last
    · rintro rfl
      exact last
  · intro absent
    rw [Std.TreeSet.isEmpty_iff_forall_not_mem]
    intro x member
    have last := (paired.mem_paired_iff listed found).mp member
    exact absent x last.mem last.1

theorem paired_iff_of_nodup (paired : r.PairedByPin) (distinct : (r.launchIds.map r.pinAt).Nodup)
    (first : x ∈ r.launchIds) (second : y ∈ r.captureIds) :
    r.nodes.Linked .pair x y ↔ r.pinAt x = r.pinAt y := by
  rw [paired.paired_sides_iff first]
  constructor
  · rintro ⟨_, pin, here, there, _⟩
    exact there.trans here.symm
  · intro same
    obtain ⟨n, found⟩ := paired.exists_capture second
    have here : r.pinAt y = some n.pin := by rw [pinAt, found, Option.map_some]
    obtain ⟨x', last⟩ := exists_lastLaunch first (same.trans here)
    obtain rfl : x' = x := by
      apply List.inj_on_of_nodup_map distinct last.mem first
      exact last.1.trans (same.trans here).symm
    exact ⟨second, n.pin, here, last⟩

end PairedByPin

end PathRecord

namespace QueryService

open PathRecord

variable {ctx : Context} {config : AnalysisConfig} {path : PathId} {r : PathRecord}

theorem pairedByPin_of_buildRecord (done : buildRecord ctx config path = .ok r) :
    r.PairedByPin := by
  have fresh {r r' : PathRecord} {side : Side} {path : PathId} {offset : Double}
      (linked : r.WellLinked) (walked : (stageNodes ctx path offset config.clockExpanded).map
        (r.installSide ctx.database side) = .ok r') :
      r'.WellLinked ∧ ∀ x y, ¬ r'.nodes.Linked .pair x y := by
    obtain ⟨nodes, stepped, rfl⟩ := map_eq_ok.mp walked
    have blank := blank_stageNodes stepped
    exact ⟨linked.installSide ctx.database side blank,
      not_paired_installSide linked ctx.database side blank⟩
  rw [buildRecord] at done
  split at done
  · next summary known =>
    obtain ⟨launched, walked, done⟩ := bind_eq_ok.mp done
    have start : (PathRecord.empty.applySummary summary).WellLinked :=
      WellLinked.empty.step (.applySummary summary)
    obtain ⟨linked, unpaired⟩ := fresh start walked
    dsimp only at done
    split at done
    · obtain rfl := Except.ok.inj done
      exact .finish linked unpaired
    · obtain ⟨captured, walked, done⟩ := bind_eq_ok.mp done
      obtain rfl := Except.ok.inj done
      obtain ⟨linked, unpaired⟩ := fresh linked walked
      exact .finish linked unpaired
  · cases done

/-- Which nodes the records of an answer pair. Pairs are mutual and join the two sides: a launch
node and a capture node are paired just if the launch node is the last one on the pin of the other.
So a capture node has one partner if its pin occurs on the launch side and none if not, and where no
two launch nodes share a pin, the pins alone decide. Pairing a record again changes nothing. -/
theorem timingPathsWith_pairs {s : QueryService} {starts ends : PinSet} {throughs : List PinSet}
    {records : List PathRecord}
    (answered : s.timingPathsWith config starts throughs ends = .ok records)
    (member : r ∈ records) :
    (∀ x y, r.nodes.Linked .pair x y → r.nodes.Linked .pair y x ∧
      (x ∈ r.launchIds ∧ y ∈ r.captureIds ∨ x ∈ r.captureIds ∧ y ∈ r.launchIds)) ∧
    (∀ x ∈ r.launchIds, ∀ y ∈ r.captureIds, (r.nodes.Linked .pair x y ↔
      ∃ pin, r.pinAt y = some pin ∧ r.LastLaunch pin x)) ∧
    (∀ y ∈ r.captureIds, ∃ n, r.nodes.get? y = some n ∧
      ((∃ x ∈ r.launchIds, r.pinAt x = some n.pin) →
        ∃ x ∈ r.launchIds, ∀ z, z ∈ n.paired ↔ z = x) ∧
      ((∀ x ∈ r.launchIds, r.pinAt x ≠ some n.pin) → n.paired.isEmpty = true)) ∧
    ((r.launchIds.map r.pinAt).Nodup → ∀ x ∈ r.launchIds, ∀ y ∈ r.captureIds,
      (r.nodes.Linked .pair x y ↔ r.pinAt x = r.pinAt y)) ∧
    r.pairCommonNodes = r := by
  obtain ⟨ctx, point, path, bound, found, built⟩ := exists_buildRecord answered member
  have paired := pairedByPin_of_buildRecord built
  refine ⟨?_, ?_, fun y listed => paired.partners_of_capture listed,
    fun distinct x first y second => paired.paired_iff_of_nodup distinct first second,
    paired.pairCommonNodes_eq⟩
  · intro x y linked
    have either := (paired.paired_iff x y).mp linked
    refine ⟨(paired.paired_iff y x).mpr either.symm, ?_⟩
    rcases either with meets | meets
    · exact .inl ⟨meets.mem, meets.1⟩
    · exact .inr ⟨meets.1, meets.mem⟩
  · intro x first y second
    rw [paired.paired_sides_iff first, Meets, and_iff_right second]

/-- A path that comes back to the pin where it starts. The one that captures it starts there too. -/
def revisiting : Context where
  engine :=
    { lonePin.engine with
      pathStages := fun path =>
        some ((if path = ⟨0⟩ then [0, 1, 0] else [0, 2]).map fun pin =>
          { pin := ⟨pin⟩, isClock := true, isRising := true, isSink := false, arrival := 0
            delay := 0, slew := 0, load := 0 })
      capturePath := fun _ => some { path := ⟨1⟩, offset := 1 } }
  database := lonePin.database

/-- The first node of the capture side has the second visit for its partner, and the other has none.
-/
theorem timingPathsWith_pairs_revisiting : ∃ r n,
    (ofContext revisiting).timingPathsWith
      { maxPathCount := 1, includeCapturePaths := true, clockExpanded := true } ∅ [] ∅ = .ok [r] ∧
    r.launchIds = [⟨0⟩, ⟨1⟩, ⟨2⟩] ∧ r.captureIds = [⟨3⟩, ⟨4⟩] ∧
    ¬ r.nodes.Linked .pair ⟨0⟩ ⟨3⟩ ∧ r.nodes.Linked .pair ⟨2⟩ ⟨3⟩ ∧
    r.nodes.get? ⟨4⟩ = some n ∧ n.paired.isEmpty = true ∧ r.pairCommonNodes = r := by
  obtain ⟨r, answered, launchIds, captureIds, pins⟩ : ∃ r, (ofContext revisiting).timingPathsWith
      { maxPathCount := 1, includeCapturePaths := true, clockExpanded := true } ∅ [] ∅ = .ok [r] ∧
      r.launchIds = [⟨0⟩, ⟨1⟩, ⟨2⟩] ∧ r.captureIds = [⟨3⟩, ⟨4⟩] ∧
      [⟨0⟩, ⟨1⟩, ⟨2⟩, ⟨3⟩, ⟨4⟩].map r.pinAt =
        [some ⟨0⟩, some ⟨1⟩, some ⟨0⟩, some ⟨0⟩, some ⟨2⟩] := ⟨_, rfl, rfl, rfl, rfl⟩
  obtain ⟨-, linked_iff, partners, -, again⟩ := timingPathsWith_pairs answered (.head _)
  simp only [List.map_cons, List.map_nil, List.cons.injEq, and_true] at pins
  obtain ⟨pin, pin', pin'', shared, own⟩ := pins
  have last : r.LastLaunch ⟨0⟩ ⟨2⟩ := ⟨pin'', [⟨0⟩, ⟨1⟩], [], launchIds, nofun⟩
  rw [launchIds, captureIds] at linked_iff partners
  obtain ⟨n, found, -, unpaired⟩ := partners ⟨4⟩ (by decide)
  refine ⟨r, n, answered, launchIds, captureIds, ?_, ?_, found, ?_, again⟩
  · rw [linked_iff ⟨0⟩ (by decide) ⟨3⟩ (by decide)]
    rintro ⟨_, here, first⟩
    obtain rfl := Option.some.inj (shared.symm.trans here)
    exact absurd (first.unique last) (by decide)
  · rw [linked_iff ⟨2⟩ (by decide) ⟨3⟩ (by decide)]
    exact ⟨⟨0⟩, shared, last⟩
  · apply unpaired
    have here : n.pin = ⟨2⟩ := by
      rw [pinAt, found] at own
      exact Option.some.inj own
    rw [here]
    simp [pin, pin', pin'']

end QueryService

end TimingExplorer
