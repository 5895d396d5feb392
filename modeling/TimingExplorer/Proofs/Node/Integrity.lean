import TimingExplorer.Proofs.Cone.Appending
import TimingExplorer.Proofs.Node.Matching

/-!
What holds of a node arena after any operations on it. Links stay within the arena and never lead a
node back to itself. A pair is made at both ends at once and dropped at one end only, so whether it
is still there tells how its ends were treated since.
-/
namespace TimingExplorer

/-- Of the items that satisfy a condition on what comes before them, one is the last. -/
theorem exists_last_split {α : Type} {P : List α → α → Prop} {before : List α} {item : α}
    (after : List α) (holds : P before item) : ∃ before' item' after',
      before ++ item :: after = before' ++ item' :: after' ∧ P before' item' ∧
        ∀ between later rest, after' = between ++ later :: rest →
          ¬ P (before' ++ item' :: between) later := by
  induction count : after.length using Nat.strong_induction_on generalizing before item after with
  | _ k ih =>
    by_cases last : ∃ between later rest, after = between ++ later :: rest ∧
        P (before ++ item :: between) later
    · obtain ⟨between, later, rest, rfl, holds'⟩ := last
      have shorter : rest.length < k := by
        rw [← count, List.length_append, List.length_cons]
        omega
      have split : before ++ item :: (between ++ later :: rest) =
          (before ++ item :: between) ++ later :: rest := by simp
      rw [split]
      exact ih _ shorter _ holds' rfl
    · refine ⟨before, item, after, rfl, holds, fun between later rest split holds' => ?_⟩
      exact last ⟨between, later, rest, split, holds'⟩

namespace PathNode

variable {n : PathNode}

/-- Nodes as they are made, before anything links or changes them. -/
inductive Fresh : PathNode → Prop where
  | placeholder (terminal : Terminal) (pin : PinId) (flags : NodeFlags) :
      Fresh (.placeholder terminal pin flags)
  | withValues (terminal : Terminal) (pin : PinId) (flags : NodeFlags) (values : NodeValues)
      (fanout : Nat) : Fresh (.withValues terminal pin flags values fanout)
  | ofPin {ctx : Context} {pin : PinId} {point : AnalysisPoint} {n : PathNode}
      (made : PathNode.ofPin ctx pin point = .ok n) : Fresh n

/-- A node that has no values has no quantities either. -/
def ZeroUnlessTimed (n : PathNode) : Prop := n.hasValues = false → n.values = {}

theorem Fresh.blank (fresh : n.Fresh) : n.unlinked = n := by
  cases fresh with
  | placeholder | withValues => rfl
  | ofPin made => exact (showsPin_ofPin made).blank

theorem zeroUnlessTimed_ofPin {ctx : Context} {pin : PinId} {point : AnalysisPoint}
    (made : ofPin ctx pin point = .ok n) : n.ZeroUnlessTimed := by
  unfold ofPin at made
  split at made
  · split at made
    · cases made
    · split at made
      all_goals obtain rfl := Except.ok.inj made
      · exact nofun
      · exact fun _ => rfl
  · cases made

theorem Fresh.zeroUnlessTimed (fresh : n.Fresh) : n.ZeroUnlessTimed := by
  cases fresh with
  | placeholder => exact fun _ => rfl
  | withValues => exact nofun
  | ofPin made => exact zeroUnlessTimed_ofPin made

end PathNode

namespace NodeArena

variable {a : NodeArena} {x y u v : NodeId} {kind : LinkKind} {n : PathNode}

/-- One operation on an arena, with ids that need not be its own. -/
inductive Operation where
  | alloc (node : PathNode) (fresh : node.Fresh)
  | pair (x y : NodeId)
  | setInstanceNode (node target : NodeId)
  | copyData (source target : NodeId)
  | clearPaired (id : NodeId)
  | setSlack (id : NodeId) (slack : Double)
  | setFanout (id : NodeId) (fanout : Nat)

def step (a : NodeArena) : Operation → NodeArena
  | .alloc node _ => (a.alloc node).2
  | .pair x y => (a.pair x y).2
  | .setInstanceNode node target => (a.setInstanceNode node target).2
  | .copyData source target => a.copyData source target
  | .clearPaired id => a.modify id (·.clearPaired)
  | .setSlack id slack => a.modify id (·.setSlack slack)
  | .setFanout id fanout => a.modify id (·.setFanout fanout)

def run (a : NodeArena) (operations : List Operation) : NodeArena := operations.foldl step a

/-- The operation pairs two nodes, named in either order, and succeeds. -/
def Joins (a : NodeArena) (x y : NodeId) : Operation → Prop
  | .pair u v => (a.pair u v).1 = true ∧ (x = u ∧ y = v ∨ x = v ∧ y = u)
  | _ => False

theorem Joins.symm {operation : Operation} (joins : a.Joins x y operation) :
    a.Joins y x operation := by
  cases operation with
  | pair u v => exact ⟨joins.1, joins.2.symm.imp And.symm And.symm⟩
  | _ => exact joins.elim

theorem fst_pair (a : NodeArena) (x y : NodeId) : (a.pair x y).1 = a.linkable x y := by
  rw [pair]
  cases a.linkable x y <;> rfl

theorem Joins.linkable {operation : Operation} (joins : a.Joins x y operation) :
    a.linkable x y = true := by
  cases operation with
  | pair u v =>
    obtain ⟨made, ⟨rfl, rfl⟩ | ⟨rfl, rfl⟩⟩ := joins
    · rwa [fst_pair] at made
    · rwa [fst_pair, linkable_comm] at made
  | _ => exact joins.elim

theorem fst_setInstanceNode (a : NodeArena) (x y : NodeId) :
    (a.setInstanceNode x y).1 = a.linkable x y := by
  rw [setInstanceNode]
  cases a.linkable x y <;> rfl

theorem linkable_iff : a.linkable x y = true ↔
    x ≠ y ∧ a.contains x = true ∧ a.contains y = true := by
  simp only [linkable, Bool.and_eq_true, decide_eq_true_eq, and_assoc]

theorem linkable_eq_false : a.linkable x y = false ↔
    x = y ∨ a.contains x = false ∨ a.contains y = false := by
  simp only [← Bool.not_eq_true, linkable_iff, not_and_or, ne_eq, Decidable.not_not]

theorem pair_of_refused (refused : (a.pair x y).1 = false) : (a.pair x y).2 = a := by
  rw [fst_pair] at refused
  rw [pair, if_neg (Bool.eq_false_iff.mp refused)]

theorem setInstanceNode_of_refused (refused : (a.setInstanceNode x y).1 = false) :
    (a.setInstanceNode x y).2 = a := by
  rw [fst_setInstanceNode] at refused
  rw [setInstanceNode, if_neg (Bool.eq_false_iff.mp refused)]

/-! The links of a pair. -/

theorem linked_alloc (blank : n.unlinked = n) :
    (a.alloc n).2.Linked kind x y ↔ a.Linked kind x y := by
  have blank : ∀ m ∈ [n], m.unlinked = m := List.forall_mem_singleton.mpr blank
  exact linked_allocAll blank

theorem linked_copyData (a : NodeArena) (u v : NodeId) :
    (a.copyData u v).Linked kind x y ↔ a.Linked kind x y := by
  unfold copyData
  split
  · exact linked_modify fun n y => by cases kind <;> rfl
  · rfl

theorem paired_clearPaired (a : NodeArena) (u x y : NodeId) :
    (a.modify u (·.clearPaired)).Linked .pair x y ↔ a.Linked .pair x y ∧ u ≠ x := by
  simp only [Linked, get?_modify]
  by_cases here : u = x
  · simp [here, PathNode.LinksTo, PathNode.clearPaired]
  · simp [here]

/-- A pair is there if it has just been made, or was there and has not just been dropped. -/
theorem paired_step (a : NodeArena) (operation : Operation) (x y : NodeId) :
    (a.step operation).Linked .pair x y ↔
      a.Joins x y operation ∨ a.Linked .pair x y ∧ operation ≠ .clearPaired x := by
  cases operation with
  | pair u v =>
    simp only [Joins, step, linked_pair, fst_pair, ne_eq, reduceCtorEq, not_false_eq_true, and_true]
    exact or_comm
  | clearPaired u =>
    simp only [Joins, step, paired_clearPaired, ne_eq, Operation.clearPaired.injEq, false_or]
  | alloc node fresh =>
    simp only [Joins, step, linked_alloc fresh.blank, ne_eq, reduceCtorEq, not_false_eq_true,
      and_true, false_or]
  | setInstanceNode | copyData =>
    simp only [Joins, step, pair_setInstanceNode, linked_copyData, ne_eq, reduceCtorEq,
      not_false_eq_true, and_true, false_or]
  | setSlack | setFanout =>
    simp only [Joins, step, ne_eq, reduceCtorEq, not_false_eq_true, and_true, false_or]
    exact linked_modify fun _ _ => Iff.rfl

theorem paired_run (a : NodeArena) (operations : List Operation) (x y : NodeId) :
    (a.run operations).Linked .pair x y ↔
      a.Linked .pair x y ∧ .clearPaired x ∉ operations ∨
        ∃ before operation after, operations = before ++ operation :: after ∧
          (a.run before).Joins x y operation ∧ .clearPaired x ∉ after := by
  induction operations generalizing a with
  | nil => simp [run]
  | cons first rest ih =>
    refine (ih (a.step first)).trans ?_
    rw [paired_step]
    constructor
    · rintro (⟨joins | ⟨linked, other⟩, kept⟩ | ⟨before, operation, after, rfl, joins, kept⟩)
      · exact .inr ⟨[], first, rest, rfl, joins, kept⟩
      · exact .inl ⟨linked, List.not_mem_cons_of_ne_of_not_mem other.symm kept⟩
      · exact .inr ⟨first :: before, operation, after, rfl, joins, kept⟩
    · rintro (⟨linked, kept⟩ | ⟨before, operation, after, split, joins, kept⟩)
      · obtain ⟨other, kept⟩ := List.ne_and_not_mem_of_not_mem_cons kept
        exact .inl ⟨.inr ⟨linked, other.symm⟩, kept⟩
      · rcases List.cons_eq_append_iff.mp split with ⟨rfl, same⟩ | ⟨before, rfl, rfl⟩
        · obtain ⟨rfl, rfl⟩ := List.cons.inj same
          exact .inl ⟨.inl joins, kept⟩
        · exact .inr ⟨before, operation, after, rfl, joins, kept⟩

theorem paired_run_empty {operations : List Operation} : (empty.run operations).Linked .pair x y ↔
    ∃ before operation after, operations = before ++ operation :: after ∧
      (empty.run before).Joins x y operation ∧ .clearPaired x ∉ after := by
  have unlinked : ¬ empty.Linked .pair x y := NodesByDepth.not_linked_empty
  simp only [paired_run, unlinked, false_and, false_or]

/-- A pair that is there at one end only was dropped at the other end after it was last made. -/
theorem cleared_of_run {operations : List Operation}
    (linked : (empty.run operations).Linked .pair x y)
    (single : ¬ (empty.run operations).Linked .pair y x) :
    ∃ before operation after, operations = before ++ operation :: after ∧
      (empty.run before).Joins x y operation ∧
      (∀ between later rest, after = between ++ later :: rest →
        ¬ (empty.run (before ++ operation :: between)).Joins x y later) ∧
      .clearPaired y ∈ after := by
  obtain ⟨before, operation, after, rfl, joins, _⟩ := paired_run_empty.mp linked
  obtain ⟨before', operation', after', split, joins', last⟩ :=
    exists_last_split (P := fun before => (empty.run before).Joins x y) after joins
  refine ⟨before', operation', after', split, joins', last, ?_⟩
  -- Otherwise the other end would still have the link that the last pairing gave it.
  by_contra kept
  exact single (paired_run_empty.mpr ⟨before', operation', after', split, joins'.symm, kept⟩)

/-! Links stay within the arena. -/

theorem get?_alloc (a : NodeArena) (n : PathNode) (id : NodeId) :
    (a.alloc n).2.get? id = if id = a.nodes.nextId then some n else a.get? id :=
  Arena.get?_push a.nodes n id

theorem contains_step (operation : Operation) (known : a.contains x = true) :
    (a.step operation).contains x = true := by
  cases operation with
  | alloc node fresh =>
    rw [step, ← isSome_get?, get?_alloc]
    split
    · rfl
    · rw [isSome_get?, known]
  | pair u v => rw [step, contains_pair, known]
  | setInstanceNode u v => rw [step, ← isSome_data, data_setInstanceNode, isSome_data, known]
  | copyData u v =>
    rw [step, copyData]
    split
    · rw [contains_modify, known]
    · exact known
  | clearPaired | setSlack | setFanout => rw [step, contains_modify, known]

/-- Only an operation that sets the counterpart of a node gives it a new one. -/
theorem counterpart_step {operation : Operation}
    (linked : (a.step operation).Linked .counterpart x y) :
    a.Linked .counterpart x y ∨ a.linkable x y = true := by
  cases operation with
  | alloc node fresh => exact .inl ((linked_alloc fresh.blank).mp linked)
  | pair u v => exact .inl ((counterpart_pair a u v x y).mp linked)
  | setInstanceNode u v =>
    rw [step, linked_setInstanceNode] at linked
    split at linked
    · next made =>
      obtain ⟨linkable, rfl⟩ := made
      exact .inr (linked ▸ linkable)
    · exact .inl linked
  | copyData u v => exact .inl ((linked_copyData a u v).mp linked)
  | clearPaired | setSlack | setFanout =>
    refine .inl ((linked_modify fun n y => ?_).mp linked)
    rfl

/-- Every link leads to another node of the arena. -/
def WithinBounds (a : NodeArena) : Prop :=
  ∀ kind x y, a.Linked kind x y → a.contains y = true ∧ y ≠ x

theorem WithinBounds.step (bounds : a.WithinBounds) (operation : Operation) :
    (a.step operation).WithinBounds := by
  have made {x y} (linkable : a.linkable x y = true) :
      (a.step operation).contains y = true ∧ y ≠ x := by
    obtain ⟨differ, _, known⟩ := linkable_iff.mp linkable
    exact ⟨contains_step operation known, differ.symm⟩
  have old {kind x y} (linked : a.Linked kind x y) :
      (a.step operation).contains y = true ∧ y ≠ x := by
    obtain ⟨known, differ⟩ := bounds kind x y linked
    exact ⟨contains_step operation known, differ⟩
  intro kind x y linked
  cases kind with
  | pair =>
    rcases (paired_step a operation x y).mp linked with joins | ⟨before, _⟩
    · exact made joins.linkable
    · exact old before
  | counterpart => exact (counterpart_step linked).elim old made

theorem WithinBounds.run (bounds : a.WithinBounds) (operations : List Operation) :
    (a.run operations).WithinBounds := by
  induction operations generalizing a with
  | nil => exact bounds
  | cons operation rest ih => exact ih (bounds.step operation)

/-! What no operation changes in a node. -/

section Nodes

variable {P : PathNode → Prop} {f : PathNode → PathNode}

/-- What holds of every node holds after a change that keeps it. -/
theorem forall_modify (all : ∀ id n, a.get? id = some n → P n) (keeps : ∀ n, P n → P (f n)) :
    ∀ id n, (a.modify x f).get? id = some n → P n := by
  intro id n found
  rw [get?_modify] at found
  split at found
  · obtain ⟨m, before, rfl⟩ := Option.map_eq_some_iff.mp found
    exact keeps m (all id m before)
  · exact all id n found

end Nodes

theorem zeroUnlessTimed_step (all : ∀ id n, a.get? id = some n → n.ZeroUnlessTimed)
    (operation : Operation) : ∀ id n, (a.step operation).get? id = some n → n.ZeroUnlessTimed := by
  cases operation with
  | alloc node fresh =>
    intro id n found
    rw [step, get?_alloc] at found
    split at found
    · exact Option.some.inj found ▸ fresh.zeroUnlessTimed
    · exact all id n found
  | pair u v =>
    rw [step, pair]
    split
    · exact forall_modify (forall_modify all fun _ => id) fun _ => id
    · exact all
  | setInstanceNode u v =>
    rw [step, setInstanceNode]
    split
    · exact forall_modify all fun _ => id
    · exact all
  | copyData u v =>
    rw [step, copyData]
    split
    · next source found => exact forall_modify all fun _ _ => all u source found
    · exact all
  | clearPaired | setSlack | setFanout => exact forall_modify all fun _ => id

theorem zeroUnlessTimed_run (all : ∀ id n, a.get? id = some n → n.ZeroUnlessTimed)
    (operations : List Operation) :
    ∀ id n, (a.run operations).get? id = some n → n.ZeroUnlessTimed := by
  induction operations generalizing a with
  | nil => exact all
  | cons operation rest ih => exact ih (zeroUnlessTimed_step all operation)

theorem size_copyData (a : NodeArena) (u v : NodeId) : (a.copyData u v).size = a.size := by
  unfold copyData
  split
  · exact Arena.size_modify _ _ _
  · rfl

/-- Copying leaves every node the one of its own pin, with its own links. -/
theorem exists_get?_copyData (u v : NodeId) (found : a.get? x = some n) :
    ∃ m, (a.copyData u v).get? x = some m ∧ m.terminal = n.terminal ∧ m.pin = n.pin ∧
      m.paired = n.paired ∧ m.instanceNode = n.instanceNode := by
  unfold copyData
  split
  · next source _ =>
    rw [get?_modify, found]
    split
    · exact ⟨source.copyData n, rfl, rfl, rfl, rfl, rfl⟩
    · exact ⟨n, rfl, rfl, rfl, rfl, rfl⟩
  · exact ⟨n, found, rfl, rfl, rfl, rfl⟩

/-- What holds of an arena after any operations on it. Links lead to other nodes of the arena. A
node is paired with another one just if the two were paired and its own pairs were not dropped
since, so where only one end is left the other was dropped after the two were last paired. Links are
refused just between equal or foreign ids, and then nothing changes; copying changes no identity and
no link; and a node without values has no quantities. -/
theorem integrity_of_run (operations : List Operation) :
    let a := empty.run operations
    (∀ kind x y, a.Linked kind x y → a.contains y = true ∧ y ≠ x) ∧
      (∀ x y, a.Linked .pair x y ↔
        ∃ before operation after, operations = before ++ operation :: after ∧
          (empty.run before).Joins x y operation ∧ .clearPaired x ∉ after) ∧
      (∀ x y, a.Linked .pair x y → ¬ a.Linked .pair y x →
        ∃ before operation after, operations = before ++ operation :: after ∧
          (empty.run before).Joins x y operation ∧
          (∀ between later rest, after = between ++ later :: rest →
            ¬ (empty.run (before ++ operation :: between)).Joins x y later) ∧
          .clearPaired y ∈ after) ∧
      (∀ x y, ((a.pair x y).1 = false ↔ x = y ∨ a.contains x = false ∨ a.contains y = false) ∧
        ((a.pair x y).1 = false → (a.pair x y).2 = a)) ∧
      (∀ x y,
        ((a.setInstanceNode x y).1 = false ↔
          x = y ∨ a.contains x = false ∨ a.contains y = false) ∧
        ((a.setInstanceNode x y).1 = false → (a.setInstanceNode x y).2 = a)) ∧
      (∀ source target, (a.copyData source target).size = a.size ∧ ∀ id n, a.get? id = some n →
        ∃ m, (a.copyData source target).get? id = some m ∧ m.terminal = n.terminal ∧
          m.pin = n.pin ∧ m.paired = n.paired ∧ m.instanceNode = n.instanceNode) ∧
      ∀ id n, a.get? id = some n → n.hasValues = false →
        n.values.arrival = 0 ∧ n.values.delay = 0 ∧ n.values.slew = 0 ∧ n.values.load = 0 := by
  intro a
  have bounds : a.WithinBounds :=
    WithinBounds.run (fun _ _ _ linked => absurd linked NodesByDepth.not_linked_empty) operations
  have values : ∀ id n, a.get? id = some n → n.ZeroUnlessTimed :=
    zeroUnlessTimed_run (fun _ _ found => by simp [empty, get?] at found) operations
  refine ⟨bounds, fun x y => paired_run_empty, fun x y => cleared_of_run, fun x y => ⟨?_, ?_⟩,
    fun x y => ⟨?_, ?_⟩, fun source target => ⟨size_copyData a source target, ?_⟩, ?_⟩
  · rw [fst_pair, linkable_eq_false]
  · exact pair_of_refused
  · rw [fst_setInstanceNode, linkable_eq_false]
  · exact setInstanceNode_of_refused
  · exact fun id n => exists_get?_copyData source target
  · intro id n found untimed
    rw [values id n found untimed]
    exact ⟨rfl, rfl, rfl, rfl⟩

/-- Two nodes are paired, parted at the second one's end, paired again the other way round, and
parted there once more. Between that a pair is refused, and data is copied. -/
def parted : List Operation :=
  let node (raw : Nat) : Operation := .alloc _ (.placeholder (.ofBlock ⟨raw⟩) ⟨raw⟩ {})
  [node 0, .pair ⟨0⟩ ⟨1⟩, node 1, .pair ⟨0⟩ ⟨1⟩, .clearPaired ⟨1⟩, .pair ⟨1⟩ ⟨0⟩,
    .copyData ⟨0⟩ ⟨1⟩, .clearPaired ⟨1⟩, .setInstanceNode ⟨1⟩ ⟨0⟩]

/-- The pair is left at one end, as the other was cleared after the last time that it was made. -/
theorem integrity_of_run_parted :
    (empty.run parted).Linked .pair ⟨0⟩ ⟨1⟩ ∧ ¬ (empty.run parted).Linked .pair ⟨1⟩ ⟨0⟩ ∧
      (∃ before operation after, parted = before ++ operation :: after ∧
        (empty.run before).Joins ⟨0⟩ ⟨1⟩ operation ∧ .clearPaired ⟨1⟩ ∈ after) ∧
      ((empty.run parted).pair ⟨0⟩ ⟨9⟩).1 = false ∧
      ((empty.run parted).pair ⟨0⟩ ⟨9⟩).2 = empty.run parted := by
  have linked : (empty.run parted).Linked .pair ⟨0⟩ ⟨1⟩ := ⟨_, rfl, rfl⟩
  have single : ¬ (empty.run parted).Linked .pair ⟨1⟩ ⟨0⟩ := by
    rintro ⟨n, found, member⟩
    obtain rfl := Option.some.inj found
    exact Bool.false_ne_true member
  obtain ⟨_, _, cleared, pairs, _⟩ := integrity_of_run parted
  obtain ⟨before, operation, after, split, joins, _, dropped⟩ := cleared ⟨0⟩ ⟨1⟩ linked single
  obtain ⟨refused, unchanged⟩ := pairs ⟨0⟩ ⟨9⟩
  have foreign := refused.mpr (.inr (.inr rfl))
  exact ⟨linked, single, ⟨before, operation, after, split, joins, dropped⟩, foreign,
    unchanged foreign⟩

end NodeArena

end TimingExplorer
