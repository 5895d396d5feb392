import Mathlib.Data.List.Forall2
import TimingExplorer.Design.Search
import TimingExplorer.Proofs.Cone.Annotation
import TimingExplorer.Proofs.Cone.DepthMap
import TimingExplorer.Proofs.Cone.Reach
import TimingExplorer.Proofs.Node.Links
import TimingExplorer.Query

/-!
Annotating a depth map where there are nodes already. The new nodes come after those, one for each
entry, and are linked only with each other, so nothing of what was there changes.
-/
namespace TimingExplorer

variable {ctx : Context} {pin : PinId} {point : AnalysisPoint} {n : PathNode} {depth : Int}

/-- What the node of a pin says of it, whatever its timing. -/
structure PathNode.ShowsPin (ctx : Context) (pin : PinId) (n : PathNode) : Prop where
  same : n.pin = pin
  terminal : ctx.database.terminal pin = some n.terminal
  isSink : n.flags.isSink = ctx.engine.isLoadPin pin
  isClock : n.flags.isClock = ctx.engine.isClockPin pin
  fanout : n.fanout = if ctx.engine.isLoadPin pin then 0 else ctx.engine.fanout pin
  blank : n.unlinked = n

theorem PathNode.showsPin_ofPin (made : ofPin ctx pin point = .ok n) : ShowsPin ctx pin n := by
  unfold ofPin at made
  split at made
  · split at made
    · cases made
    · next terminal mapped =>
      split at made
      all_goals
        obtain rfl := Except.ok.inj made
        exact ⟨rfl, mapped, rfl, rfl, rfl, rfl⟩
  · cases made

theorem QueryService.timingNodeWith_eq {s : QueryService} {config : AnalysisConfig}
    (bound : s.context = .ok ctx) (resolved : pointOf ctx.engine config = .ok point)
    (pin : PinId) : s.timingNodeWith config pin = PathNode.ofPin ctx pin point := by
  simp only [timingNodeWith, bound, resolved, bind, Except.bind]

namespace NodesByDepth

variable {α : Type} {l : NodesByDepth}

/-- The id that each of a list of new nodes gets. -/
def numbered (l : NodesByDepth) (entries : List α) : List (α × NodeId) :=
  (entries.zipIdx l.size).map fun (entry, raw) => (entry, ⟨raw⟩)

theorem mem_numbered {entries : List α} {entry : α} {id : NodeId} :
    (entry, id) ∈ l.numbered entries ↔ ∃ i, entries[i]? = some entry ∧ id = ⟨l.size + i⟩ := by
  simp only [numbered, List.mem_map, Prod.exists, Prod.mk.injEq,
    List.mem_zipIdx_iff_le_and_getElem?_sub]
  constructor
  · rintro ⟨_, raw, ⟨from', found⟩, rfl, rfl⟩
    exact ⟨raw - l.size, found, by rw [Nat.add_sub_cancel' from']⟩
  · rintro ⟨i, found, rfl⟩
    exact ⟨entry, l.size + i, ⟨Nat.le_add_right _ _, by rwa [Nat.add_sub_cancel_left]⟩, rfl, rfl⟩

theorem mem_numbered_empty {items : List α} {item : α} {id : NodeId} :
    (item, id) ∈ empty.numbered items ↔ items[id.raw]? = some item := by
  have size : empty.size = 0 := rfl
  obtain ⟨raw⟩ := id
  simp [mem_numbered, size]

theorem map_fst_numbered (l : NodesByDepth) (items : List α) :
    (l.numbered items).map Prod.fst = items := by
  simp [numbered, Function.comp_def]

theorem not_linked_empty {kind : LinkKind} {x y : NodeId} : ¬ empty.nodes.Linked kind x y := by
  rintro ⟨n, found, _⟩
  simp [empty, NodeArena.empty, NodeArena.get?] at found

/-! Storing nodes one after the other. -/

theorem nodes_pushAll (l : NodesByDepth) (built : List (Int × PathNode)) :
    (l.pushAll built).2.nodes = (l.nodes.allocAll (built.map Prod.snd)).2 ∧
      (l.pushAll built).1 = (l.nodes.allocAll (built.map Prod.snd)).1 := by
  induction built generalizing l with
  | nil => exact ⟨rfl, rfl⟩
  | cons entry rest ih =>
    obtain ⟨nodes, ids⟩ := ih (l.push entry.1 entry.2).2
    exact ⟨nodes, congrArg (_ :: ·) ids⟩

theorem levelIds_push (l : NodesByDepth) (d : Int) (n : PathNode) (depth : Int) :
    (l.push d n).2.levelIds depth =
      l.levelIds depth ++ if d = depth then [l.nodes.nodes.nextId] else [] := by
  simp only [levelIds, push, NodeArena.alloc, Std.TreeMap.getD_insert, Std.compare_eq_iff_eq]
  split
  · next same => rw [same]
  · rw [List.append_nil]

theorem levelIds_pushAll (l : NodesByDepth) (built : List (Int × PathNode)) (depth : Int) :
    (l.pushAll built).2.levelIds depth = l.levelIds depth ++
      ((l.numbered (built.map Prod.fst)).filter (·.1 = depth)).map Prod.snd := by
  induction built generalizing l with
  | nil => exact (List.append_nil _).symm
  | cons entry rest ih =>
    obtain ⟨d, n⟩ := entry
    have size : (l.push d n).2.size = l.size + 1 := Arena.size_push _ _
    have later := ih (l.push d n).2
    rw [levelIds_push, numbered, size] at later
    refine later.trans ?_
    rw [numbered, List.map_cons, List.zipIdx_cons, List.map_cons, List.append_assoc]
    refine congrArg (l.levelIds depth ++ ·) ?_
    by_cases same : d = depth
    · simp only [same, if_true, List.filter_cons, decide_true, List.map_cons]
      rfl
    · simp only [same, if_false, List.filter_cons, decide_false, List.nil_append]
      rfl

theorem mem_levels_pushAll (l : NodesByDepth) (built : List (Int × PathNode)) :
    depth ∈ (l.pushAll built).2.levels ↔ depth ∈ l.levels ∨ depth ∈ built.map Prod.fst := by
  induction built generalizing l with
  | nil => simp [pushAll]
  | cons entry rest ih =>
    refine (ih (l.push entry.1 entry.2).2).trans ?_
    simp only [push, Std.TreeMap.mem_insert, Std.compare_eq_iff_eq, List.map_cons, List.mem_cons]
    tauto

/-- Nodes after those of a list of entries have been added to earlier ones. -/
structure Extends (l : NodesByDepth) (ctx : Context) (point : AnalysisPoint)
    (entries : List (Int × PinId)) (l' : NodesByDepth) : Prop where
  size : l'.size = l.size + entries.length
  /-- An earlier node is the same as before, links included. -/
  kept : ∀ id, l.nodes.contains id = true → l'.node? id = l.node? id
  /-- Each level goes on with the new nodes of its depth, in order of the entries. -/
  levelIds : ∀ depth, l'.levelIds depth =
    l.levelIds depth ++ ((l.numbered entries).filter (·.1.1 = depth)).map Prod.snd
  levels : ∀ depth, depth ∈ l'.levels ↔ depth ∈ l.levels ∨ ∃ pin, (depth, pin) ∈ entries
  /-- A new node is that of its pin, apart from its links. -/
  made : ∀ depth pin id, ((depth, pin), id) ∈ l.numbered entries →
    ∃ n, l'.node? id = some n ∧ PathNode.ofPin ctx pin point = .ok n.unlinked
  /-- A link joins two earlier nodes or two new ones. -/
  apart : ∀ kind x y, l'.nodes.Linked kind x y →
    l'.nodes.contains y = true ∧ l.nodes.contains x = l.nodes.contains y

end NodesByDepth

namespace ConeBuilder

open NodeArena

variable {engine : TimingEngine} {byPin : Std.TreeMap PinId NodeId} {inside : NodeId → Prop}
  {id target : NodeId} {entries : List (Int × PinId)} {built : List (Int × PathNode)}

/-! The new nodes are linked with each other. -/

theorem linksWithin_pointIfFree (a : NodeArena) (first : inside id) (second : inside target) :
    LinksWithin inside a (pointIfFree a id target) := by
  unfold pointIfFree
  split
  · exact linksWithin_setInstanceNode a first second
  · exact .refl inside a

theorem linksWithin_linkNode (a : NodeArena) (pin : PinId) (here : inside id)
    (listed : ∀ (pin : PinId) (target : NodeId), byPin[pin]? = some target → inside target) :
    LinksWithin inside a (linkNode engine byPin a pin id) := by
  have found {pins : List PinId} {target : NodeId}
      (member : target ∈ pins.filterMap (byPin[·]?)) : inside target := by
    obtain ⟨pin, _, known⟩ := List.mem_filterMap.mp member
    exact listed pin target known
  unfold linkNode
  split
  · apply LinksWithin.foldl
    intro a output member
    exact (linksWithin_pointIfFree a here (found member)).trans
      (linksWithin_pointIfFree _ (found member) here)
  · split
    · exact .refl inside a
    · apply LinksWithin.foldl
      intro a load member
      exact linksWithin_pair a here (found member)

theorem linksWithin_linkConnectivity (engine : TimingEngine) {fresh : List (PinId × NodeId)}
    (listed : ∀ entry ∈ fresh, inside entry.2) (a : NodeArena) :
    LinksWithin inside a (linkConnectivity engine fresh a) := by
  apply LinksWithin.foldl
  intro a entry member
  apply linksWithin_linkNode a entry.1 (listed entry member)
  intro pin target known
  exact listed (pin, target) (mem_of_getElem?_ofList known)

/-! The nodes that are made. -/

/-- One node for each entry, at its depth and of its pin. -/
def Makes (ctx : Context) (point : AnalysisPoint) (entries : List (Int × PinId))
    (built : List (Int × PathNode)) : Prop :=
  List.Forall₂ (fun entry made => made.1 = entry.1 ∧ PathNode.ofPin ctx entry.2 point = .ok made.2)
    entries built

theorem makes_of_nodesOf (done : nodesOf ctx point entries = .ok built) :
    Makes ctx point entries built := by
  induction entries generalizing built with
  | nil =>
    obtain rfl := Except.ok.inj done
    exact .nil
  | cons entry rest ih =>
    rw [nodesOf] at done
    obtain ⟨node, made, done⟩ := bind_eq_ok.mp done
    obtain ⟨others, later, done⟩ := bind_eq_ok.mp done
    obtain rfl := Except.ok.inj done
    exact .cons ⟨rfl, made⟩ (ih later)

theorem Makes.map_fst (makes : Makes ctx point entries built) :
    built.map Prod.fst = entries.map Prod.fst := by
  induction makes with
  | nil => rfl
  | cons first _ ih => rw [List.map_cons, List.map_cons, first.1, ih]

theorem Makes.get? (makes : Makes ctx point entries built) {i : Nat} {entry : Int × PinId}
    (place : entries[i]? = some entry) :
    ∃ n, (built.map Prod.snd)[i]? = some n ∧ PathNode.ofPin ctx entry.2 point = .ok n := by
  induction makes generalizing i with
  | nil => cases place
  | @cons _ made _ _ first _ ih =>
    cases i with
    | zero =>
      obtain rfl := Option.some.inj place
      exact ⟨made.2, rfl, first.2⟩
    | succ i => exact ih place

theorem Makes.blank (makes : Makes ctx point entries built) :
    ∀ n ∈ built.map Prod.snd, n.unlinked = n := by
  induction makes with
  | nil => exact fun n member => absurd member List.not_mem_nil
  | cons first _ ih =>
    exact List.forall_mem_cons.mpr ⟨(PathNode.showsPin_ofPin first.2).blank, ih⟩

variable {m : DepthMap} {l l' : NodesByDepth}

theorem annotate_eq_ok (done : (ofContext ctx).annotate point m l = .ok l') :
    ∃ built, Makes ctx point m.entries built ∧ l'.levels = (l.pushAll built).2.levels ∧
      LinksWithin (· ∈ (l.nodes.allocAll (built.map Prod.snd)).1)
        (l.nodes.allocAll (built.map Prod.snd)).2 l'.nodes := by
  obtain ⟨built, made, done⟩ := bind_eq_ok.mp done
  obtain rfl := Except.ok.inj done
  obtain ⟨nodes, ids⟩ := l.nodes_pushAll built
  refine ⟨built, makes_of_nodesOf made, rfl, ?_⟩
  rw [← nodes, ← ids]
  apply linksWithin_linkConnectivity
  intro entry member
  exact (List.of_mem_zip member).2

theorem extends_of_annotate (own : ∀ kind x y, l.nodes.Linked kind x y → l.nodes.contains y = true)
    (done : (ofContext ctx).annotate point m l = .ok l') :
    l.Extends ctx point m.entries l' := by
  obtain ⟨built, makes, levels, links⟩ := annotate_eq_ok done
  have count : (built.map Prod.snd).length = m.entries.length := by
    rw [List.length_map, makes.length_eq]
  have size : l'.size = l.size + m.entries.length := by
    have grown := NodeArena.size_eq_of_data_eq links.data
    rw [size_eq_length (l.nodes.allocAll _).2, toList_allocAll, List.length_append, count] at grown
    exact grown
  have levelIds (depth : Int) : l'.levelIds depth = (l.pushAll built).2.levelIds depth := by
    rw [NodesByDepth.levelIds, levels, NodesByDepth.levelIds]
  refine ⟨size, fun id known => ?_, fun depth => ?_, fun depth => ?_, ?_, ?_⟩
  · have old : id ∉ (l.nodes.allocAll (built.map Prod.snd)).1 := by
      simp [mem_ids_allocAll, known]
    exact (links.outside old).trans (get?_allocAll _ known)
  · rw [levelIds, NodesByDepth.levelIds_pushAll, makes.map_fst]
    simp only [NodesByDepth.numbered, List.zipIdx_map, List.map_map, List.filter_map]
    rfl
  · rw [levels, NodesByDepth.mem_levels_pushAll, makes.map_fst]
    simp
  · intro depth pin id numbered
    obtain ⟨i, place, rfl⟩ := NodesByDepth.mem_numbered.mp numbered
    obtain ⟨n, here, made⟩ := makes.get? place
    have data : l'.nodes.data ⟨l.size + i⟩ = some n.unlinked := by
      rw [links.data, NodeArena.data, NodesByDepth.size, get?_allocAll_fresh, here]
      rfl
    obtain ⟨n', found, same⟩ := Option.map_eq_some_iff.mp data
    refine ⟨n', found, ?_⟩
    rw [same, (PathNode.showsPin_ofPin made).blank, made]
  · intro kind x y link
    have known {id} : l'.nodes.contains id =
        (l.nodes.allocAll (built.map Prod.snd)).2.contains id := links.contains
    -- New nodes are stored without links, so a link that was there before joins earlier ones.
    rcases links.linked link with before | ⟨first, second⟩
    · rw [linked_allocAll makes.blank] at before
      have target := own kind x y before
      refine ⟨?_, (contains_of_linked before).trans target.symm⟩
      rw [known, ← isSome_get?, get?_allocAll _ target, isSome_get?, target]
    · rw [mem_ids_allocAll] at first second
      exact ⟨known.trans second.2, first.1.trans second.1.symm⟩

/-! Annotating where the nodes are kept. -/

/-- Steps on nodes where they are kept. What a step stored or linked stays when a later one fails.
-/
abbrev InPlace := ExceptT QueryError (StateM NodesByDepth)

/-- The outcome and the nodes that are left. -/
def InPlace.on {α : Type} (steps : InPlace α) (l : NodesByDepth) : QueryResult α × NodesByDepth :=
  steps.run.run l

theorem InPlace.on_bind {α β : Type} {x : InPlace α} {value : α} (f : α → InPlace β)
    (done : x.on l = (.ok value, l')) : (x >>= f).on l = (f value).on l' := by
  change ExceptT.bindCont f (x.on l).1 (x.on l).2 = _
  rw [done]
  rfl

def store (built : List (Int × PathNode)) : InPlace (List NodeId) :=
  built.mapM fun (depth, node) => modifyGet (·.push depth node)

def link (engine : TimingEngine) (fresh : List (PinId × NodeId)) : InPlace Unit :=
  let byPin : Std.TreeMap PinId NodeId := .ofList fresh
  fresh.forM fun (pin, id) => modify fun l =>
    { l with nodes := linkNode engine byPin l.nodes pin id }

def annotateInPlace (ctx : Context) (point : AnalysisPoint) (m : DepthMap) : InPlace Unit := do
  let built ← nodesOf ctx point m.entries
  let ids ← store built
  link ctx.engine ((built.map fun (_, node) => node.pin).zip ids)

theorem on_store (built : List (Int × PathNode)) (l : NodesByDepth) :
    (store built).on l = (.ok (l.pushAll built).1, (l.pushAll built).2) := by
  induction built generalizing l with
  | nil => rfl
  | cons entry rest ih =>
    rw [store, List.mapM_cons]
    refine (InPlace.on_bind _ rfl).trans ?_
    exact InPlace.on_bind _ (ih (l.push entry.1 entry.2).2)

theorem on_link (engine : TimingEngine) (fresh : List (PinId × NodeId)) (l : NodesByDepth) :
    (link engine fresh).on l =
      (.ok (), { l with nodes := linkConnectivity engine fresh l.nodes }) := by
  rw [link, linkConnectivity]
  generalize Std.TreeMap.ofList fresh = byPin
  induction fresh generalizing l with
  | nil => rfl
  | cons entry rest ih => exact ih _

/-- Step by step as at once: the steps that may fail come before the first that stores a node. -/
theorem on_annotateInPlace (ctx : Context) (point : AnalysisPoint) (m : DepthMap)
    (l : NodesByDepth) : (annotateInPlace ctx point m).on l =
      match (ofContext ctx).annotate point m l with
      | .ok l' => (.ok (), l')
      | .error e => (.error e, l) := by
  rw [annotate, annotateInPlace]
  dsimp only [ofContext]
  cases nodesOf ctx point m.entries with
  | error e => rfl
  | ok built =>
    refine (InPlace.on_bind _ rfl).trans ?_
    refine (InPlace.on_bind _ (on_store built l)).trans ?_
    exact on_link _ _ _

/-- What annotating does, where the links of the earlier nodes lead only to each other. It is
refused just when some pin of the map cannot have a node, for the reason of the first of these in
order of depth and pin, and then the caller is left with the nodes as they were. Otherwise one node
for each entry comes after the earlier ones, the same as the node that its pin has by itself, and
the links join the new nodes with each other. -/
theorem annotate_spec (ctx : Context) (point : AnalysisPoint) (m : DepthMap) (l : NodesByDepth)
    (own : ∀ kind x y, l.nodes.Linked kind x y → l.nodes.contains y = true) :
    let result := (ofContext ctx).annotate point m l
    (m.entries.Pairwise fun e f => e.1 < f.1 ∨ e.1 = f.1 ∧ e.2.raw < f.2.raw) ∧
      (∀ depth pin, (depth, pin) ∈ m.entries ↔ m.At depth pin) ∧
      ((∃ e, result = .error e) ↔ ∃ depth pin, m.At depth pin ∧ ¬ ctx.Mapped pin) ∧
      (∀ e, result = .error e ↔ ctx.RefusesFirst m.entries e) ∧
      (∀ e, result = .error e → (annotateInPlace ctx point m).on l = (.error e, l)) ∧
      (∀ l', result = .ok l' → (annotateInPlace ctx point m).on l = (.ok (), l') ∧
        l.Extends ctx point m.entries l') ∧
      ∀ (s : QueryService) (config : AnalysisConfig) (pin : PinId), s.context = .ok ctx →
        QueryService.pointOf ctx.engine config = .ok point →
        s.timingNodeWith config pin = PathNode.ofPin ctx pin point := by
  intro result
  have failed (e : QueryError) : result = .error e ↔ ctx.RefusesFirst m.entries e := by
    simp [result, annotate_eq_error, ofContext]
  have steps := on_annotateInPlace ctx point m l
  refine ⟨m.pairwise_entries, fun _ _ => DepthMap.mem_entries, ?_, failed, fun e refused => ?_,
    fun l' done => ⟨?_, extends_of_annotate own done⟩,
    fun s config pin bound resolved => QueryService.timingNodeWith_eq bound resolved pin⟩
  · simp only [failed, ← DepthMap.mem_entries]
    exact Context.exists_refusesFirst_iff
  · rw [steps, show (ofContext ctx).annotate point m l = .error e from refused]
  · rw [steps, show (ofContext ctx).annotate point m l = .ok l' from done]

/-- The ring's input at two depths and its output at one. -/
def ringDepths : DepthMap := .ofDepths [(⟨0⟩, 1), (⟨1⟩, 0), (⟨0⟩, 0)]

/-- The same pins twice: the second time gives nodes of their own. -/
theorem annotate_spec_ring : ∃ l l',
    (ofContext Design.ring.context).annotate ⟨⟨0⟩, .max⟩ ringDepths .empty = .ok l ∧
      (ofContext Design.ring.context).annotate ⟨⟨0⟩, .max⟩ ringDepths l = .ok l' ∧
      l'.size = 6 ∧ l'.levelIds 0 = [⟨0⟩, ⟨1⟩, ⟨3⟩, ⟨4⟩] ∧ l'.levelIds 1 = [⟨2⟩, ⟨5⟩] ∧
      l'.node? ⟨2⟩ = l.node? ⟨2⟩ := by
  have entries : ringDepths.entries = [(0, ⟨0⟩), (0, ⟨1⟩), (1, ⟨0⟩)] := rfl
  have annotated (l : NodesByDepth)
      (own : ∀ kind x y, l.nodes.Linked kind x y → l.nodes.contains y = true) : ∃ l',
      (ofContext Design.ring.context).annotate ⟨⟨0⟩, .max⟩ ringDepths l = .ok l' ∧
        l.Extends Design.ring.context ⟨⟨0⟩, .max⟩ ringDepths.entries l' := by
    obtain ⟨_, _, refused, _, _, appended, _⟩ :=
      annotate_spec Design.ring.context ⟨⟨0⟩, .max⟩ ringDepths l own
    cases result : (ofContext Design.ring.context).annotate ⟨⟨0⟩, .max⟩ ringDepths l with
    | ok l' => exact ⟨l', rfl, (appended l' result).2⟩
    | error e =>
      obtain ⟨depth, pin, listed, bare⟩ := refused.mp ⟨e, result⟩
      rw [← DepthMap.mem_entries, entries] at listed
      simp only [List.mem_cons, List.not_mem_nil, Prod.mk.injEq, or_false] at listed
      rcases listed with ⟨_, rfl⟩ | ⟨_, rfl⟩ | ⟨_, rfl⟩ <;> exact absurd ⟨rfl, rfl⟩ bare
  obtain ⟨l, first, before⟩ := annotated .empty
    fun _ _ _ link => absurd link NodesByDepth.not_linked_empty
  obtain ⟨l', second, after⟩ := annotated l fun kind x y link => (before.apart kind x y link).1
  have size : l.size = 3 := by
    rw [before.size, entries]
    rfl
  refine ⟨l, l', first, second, ?_, ?_, ?_, ?_⟩
  · rw [after.size, size, entries]
    rfl
  · rw [after.levelIds, before.levelIds, entries]
    simp only [NodesByDepth.numbered, size]
    rfl
  · rw [after.levelIds, before.levelIds, entries]
    simp only [NodesByDepth.numbered, size]
    rfl
  · apply after.kept
    rw [NodeArena.contains_iff]
    exact (Nat.lt_succ_self 2).trans_eq size.symm

end ConeBuilder

end TimingExplorer
