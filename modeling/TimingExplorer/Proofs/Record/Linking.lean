import TimingExplorer.Proofs.Node.Matching
import TimingExplorer.Proofs.Record.Sides

/-!
How the nodes of a record are linked, after any sequence of operations. Counterparts are matched
within a side, each sink with the source right behind it, and pairs join the two sides on one pin.
Replacing a side drops every pair, since its old nodes are on one end of each.
-/
namespace TimingExplorer

theorem Side.eq_or_other (side at' : Side) : at' = side ∨ at' = side.other := by
  cases side <;> cases at' <;> simp [Side.other]

namespace PathRecord

open NodeArena

variable {r r' : PathRecord} {a nodes : NodeArena} {db : DesignDatabase} {side : Side}
  {ids all : List NodeId} {x y : NodeId}

theorem leads_of_crossesInstance {n m : PathNode} {i : Nat} (here : ids[i]? = some x)
    (next : ids[i + 1]? = some y) (found : a.get? x = some n) (found' : a.get? y = some m)
    (crosses : crossesInstance db n m = true) : a.Leads ids x y := by
  simp only [crossesInstance, PathNode.isSource, Bool.and_eq_true, Bool.not_eq_eq_eq_not,
    Bool.not_true] at crosses
  obtain ⟨⟨sink, source⟩, _⟩ := crosses
  refine ⟨i, n.pin, m.pin, here, next, ?_, ?_⟩
  · rw [role, found, Option.map_some, PathNode.role, sink]
  · rw [role, found', Option.map_some, PathNode.role, source]

/-- Linking along the rest of a sequence keeps the whole of it matched. -/
theorem matched_linkInstances (distinct : all.Nodup) (rest : ids <:+ all)
    (matched : a.Matched all) :
    (linkInstances db a ids).Matched all := by
  fun_induction linkInstances db a ids with
  | case1 a input output rest' linked ih =>
    refine ih ((List.suffix_cons input _).trans rest) ?_
    unfold linked
    split
    · next n m found found' =>
      split
      · next crosses =>
        obtain ⟨before, rfl⟩ := rest
        have here : (before ++ input :: output :: rest')[before.length]? = some input := by simp
        have next : (before ++ input :: output :: rest')[before.length + 1]? = some output := by
          simp
        exact matched.link distinct (leads_of_crossesInstance here next found found' crosses)
      · exact matched
    · exact matched
  | case2 => exact matched

theorem pair_linkInstances (db : DesignDatabase) (a : NodeArena) (ids : List NodeId)
    (x y : NodeId) :
    (linkInstances db a ids).Linked .pair x y ↔ a.Linked .pair x y := by
  fun_induction linkInstances db a ids with
  | case1 a input output rest linked ih =>
    rw [ih]
    unfold linked
    split
    · split
      · rw [pair_setInstanceNode, pair_setInstanceNode]
      · rfl
    · rfl
  | case2 => rfl

theorem counterpart_linkInstances (outside : x ∉ ids) :
    (linkInstances db a ids).Linked .counterpart x y ↔ a.Linked .counterpart x y := by
  fun_induction linkInstances db a ids with
  | case1 a input output rest linked ih =>
    simp only [List.mem_cons, not_or] at outside
    rw [ih (by simp only [List.mem_cons, not_or]; exact outside.2)]
    unfold linked
    split
    · split
      · simp only [linked_setInstanceNode, outside.1, outside.2.1, and_false, if_false]
      · rfl
    · rfl
  | case2 => rfl

theorem role_linkInstances (db : DesignDatabase) (a : NodeArena) (ids : List NodeId) (x : NodeId) :
    (linkInstances db a ids).role x = a.role x := by
  rw [role_eq, data_linkInstances, ← role_eq]

/-! New nodes are linked among themselves, and the links of the old ones stay. -/

theorem matched_fresh {fresh : List PathNode} (blank : ∀ n ∈ fresh, n.unlinked = n) :
    (linkInstances db (a.allocAll fresh).2 (a.allocAll fresh).1).Matched (a.allocAll fresh).1 := by
  refine matched_linkInstances (nodup_ids_allocAll a fresh) List.suffix_rfl ?_
  intro x member y linked
  have old := contains_of_linked ((linked_allocAll blank).mp linked)
  rw [(mem_ids_allocAll.mp member).1] at old
  cases old

theorem matched_old {fresh : List PathNode} (blank : ∀ n ∈ fresh, n.unlinked = n)
    (known : ∀ x ∈ ids, a.contains x = true) (matched : a.Matched ids) :
    (linkInstances db (a.allocAll fresh).2 (a.allocAll fresh).1).Matched ids := by
  refine matched.of_same (fun x member => ?_) fun x member y => ?_
  · rw [role_linkInstances, role_allocAll fresh (known x member)]
  · have old : x ∉ (a.allocAll fresh).1 := by
      simp [mem_ids_allocAll, known x member]
    rw [counterpart_linkInstances old, linked_allocAll blank]

/-- Two nodes stand on different sides and on the same pin. -/
def Shares (r : PathRecord) (x y : NodeId) : Prop :=
  ∃ side pin s t, x ∈ r.ids side ∧ y ∈ r.ids side.other ∧
    r.nodes.role x = some (pin, s) ∧ r.nodes.role y = some (pin, t)

/-- The invariant of a record. -/
structure WellLinked (r : PathRecord) : Prop where
  whole : r.Partitioned
  matched : ∀ side, r.nodes.Matched (r.ids side)
  paired : ∀ {x y}, r.nodes.Linked .pair x y → r.nodes.Linked .pair y x ∧ r.Shares x y

theorem Shares.symm (shares : r.Shares x y) : r.Shares y x := by
  obtain ⟨side, pin, s, t, first, second, role, role'⟩ := shares
  refine ⟨side.other, pin, t, s, second, ?_, role', role⟩
  cases side <;> exact first

theorem WellLinked.empty : PathRecord.empty.WellLinked where
  whole := .empty
  matched side x member := by cases side <;> cases member
  paired linked := by
    obtain ⟨n, found, _⟩ := linked
    cases found

/-- The ids of both sides after a replacement, each being the new id of an old one. -/
theorem map_newId?_replaceSide {fresh : List NodeId} (distinct : (r.ids side.other ++ fresh).Nodup)
    (known : ∀ id ∈ r.ids side.other ++ fresh, r.nodes.contains id = true) :
    (r.ids side.other).map (r.nodes.newId? (r.ids side.other ++ fresh)) =
        ((r.replaceSide side fresh).ids side.other).map some ∧
      fresh.map (r.nodes.newId? (r.ids side.other ++ fresh)) =
        ((r.replaceSide side fresh).ids side).map some := by
  have moved := map_newId?_compact distinct (a := r.nodes)
  rw [List.filter_eq_self.mpr known, List.map_append] at moved
  have length : (r.ids side.other).length =
      ((r.ids side.other).map (r.nodes.newId? (r.ids side.other ++ fresh))).length :=
    (List.length_map _).symm
  constructor
  · rw [ids_other_replaceSide, List.map_take, ← moved, length, List.take_left]
  · rw [ids_replaceSide, List.map_drop, ← moved, length, List.drop_left]

theorem Partitioned.apart (whole : r.Partitioned) (first : x ∈ r.ids side) :
    x ∉ r.ids side.other := by
  intro second
  have disjoint := (List.nodup_append.mp whole.nodup).2.2
  cases side with
  | launch => exact disjoint x first x second rfl
  | capture => exact disjoint x second x first rfl

theorem Shares.apart (shares : r.Shares x y) (whole : r.Partitioned) (first : x ∈ r.ids side) :
    y ∉ r.ids side := by
  obtain ⟨at', _, _, _, here, there, _⟩ := shares
  rcases Side.eq_or_other at' side with rfl | rfl
  · exact fun second => whole.apart second there
  · exact fun _ => whole.apart here first

/-- New nodes are not among those of the side that is kept. -/
theorem Partitioned.nodup_append_fresh (whole : r.Partitioned) (side : Side)
    (fresh : List PathNode) : (r.ids side ++ (r.nodes.allocAll fresh).1).Nodup := by
  refine List.nodup_append.mpr ⟨?_, nodup_ids_allocAll r.nodes fresh, ?_⟩
  · cases side with
    | launch => exact (List.nodup_append.mp whole.nodup).1
    | capture => exact (List.nodup_append.mp whole.nodup).2.1
  · rintro x old _ new rfl
    have known := whole.contains old
    rw [(mem_ids_allocAll.mp new).1] at known
    cases known

/-- The record with the nodes of a walk added and linked, before they replace a side. -/
def withFresh (r : PathRecord) (db : DesignDatabase) (fresh : List PathNode) : PathRecord :=
  { r with nodes := linkInstances db (r.nodes.allocAll fresh).2 (r.nodes.allocAll fresh).1 }

theorem ids_withFresh (r : PathRecord) (db : DesignDatabase) (fresh : List PathNode) (side : Side) :
    (r.withFresh db fresh).ids side = r.ids side := by
  cases side <;> rfl

theorem contains_withFresh (r : PathRecord) (db : DesignDatabase) (fresh : List PathNode)
    (x : NodeId) : (r.withFresh db fresh).nodes.contains x = true ↔
      r.nodes.contains x = true ∨ x ∈ (r.nodes.allocAll fresh).1 := by
  have contains : (r.withFresh db fresh).nodes.contains x =
      (r.nodes.allocAll fresh).2.contains x := by
    rw [withFresh, ← isSome_role, role_linkInstances, isSome_role]
  rw [contains, mem_ids_allocAll]
  cases known : r.nodes.contains x with
  | false => simp
  | true =>
    have kept : (r.nodes.allocAll fresh).2.contains x = true := by
      rw [← isSome_get?, get?_allocAll fresh known, isSome_get?, known]
    simp [kept]

theorem pair_withFresh {fresh : List PathNode} (blank : ∀ n ∈ fresh, n.unlinked = n) :
    (r.withFresh db fresh).nodes.Linked .pair x y ↔ r.nodes.Linked .pair x y := by
  rw [withFresh, pair_linkInstances, linked_allocAll blank]

/-- Replacing a side renames the nodes: those of the side that is kept first, then the new ones. -/
theorem renames_installSide (whole : r.Partitioned) (db : DesignDatabase) (side : Side)
    (fresh : List PathNode) :
    let mid := (r.withFresh db fresh).nodes
    let newId? := mid.newId? (r.ids side.other ++ (r.nodes.allocAll fresh).1)
    Renames mid (r.installSide db side fresh).nodes newId? ∧
      (r.ids side.other).map newId? = ((r.installSide db side fresh).ids side.other).map some ∧
      (r.nodes.allocAll fresh).1.map newId? =
        ((r.installSide db side fresh).ids side).map some := by
  have same : (r.withFresh db fresh).ids side.other = r.ids side.other :=
    ids_withFresh r db fresh side.other
  have distinct : (r.ids side.other ++ (r.nodes.allocAll fresh).1).Nodup :=
    whole.nodup_append_fresh side.other fresh
  have known : ∀ x ∈ r.ids side.other ++ (r.nodes.allocAll fresh).1,
      (r.withFresh db fresh).nodes.contains x = true := by
    intro x member
    rw [contains_withFresh]
    exact (List.mem_append.mp member).imp_left whole.contains
  have renames := renames_compact distinct (a := (r.withFresh db fresh).nodes)
  have moved := map_newId?_replaceSide
    (same.symm ▸ distinct : ((r.withFresh db fresh).ids side.other ++ _).Nodup)
    (same.symm ▸ known)
  rw [same] at moved
  rw [← same, ← nodes_replaceSide] at renames
  exact ⟨same ▸ renames, moved⟩

/-- One end of every pair was on the side that is gone. -/
theorem not_paired_installSide (linked : r.WellLinked) (db : DesignDatabase) (side : Side)
    {fresh : List PathNode} (blank : ∀ n ∈ fresh, n.unlinked = n) (x y : NodeId) :
    ¬ (r.installSide db side fresh).nodes.Linked .pair x y := by
  intro paired
  obtain ⟨renames, _⟩ := renames_installSide linked.whole db side fresh
  obtain ⟨u, v, first, second, before⟩ := renames.linked.mp paired
  rw [pair_withFresh blank] at before
  have stays {w z} (named : (r.withFresh db fresh).nodes.newId?
      (r.ids side.other ++ (r.nodes.allocAll fresh).1) w = some z)
      (known : r.nodes.contains w = true) : w ∈ r.ids side.other := by
    rw [newId?_eq_some_iff (linked.whole.nodup_append_fresh side.other fresh)] at named
    have listed := (List.mem_filter.mp (List.mem_of_getElem? named)).1
    rcases List.mem_append.mp listed with kept | new
    · exact kept
    · rw [(mem_ids_allocAll.mp new).1] at known
      cases known
  obtain ⟨back, shares⟩ := linked.paired before
  have first' := stays first (contains_of_linked before)
  have second' := stays second (contains_of_linked back)
  exact shares.apart linked.whole first' second'

theorem WellLinked.installSide (linked : r.WellLinked) (db : DesignDatabase) (side : Side)
    {fresh : List PathNode} (blank : ∀ n ∈ fresh, n.unlinked = n) :
    (r.installSide db side fresh).WellLinked := by
  obtain ⟨renames, kept, moved⟩ := renames_installSide linked.whole db side fresh
  refine ⟨.installSide r db side fresh, fun at' => ?_, fun {u v} paired => ?_⟩
  · rcases Side.eq_or_other side at' with rfl | rfl
    · exact (matched_fresh blank).renamed renames moved
    · have old : (r.withFresh db fresh).nodes.Matched (r.ids side.other) :=
        matched_old blank (fun _ => linked.whole.contains) (linked.matched side.other)
      exact old.renamed renames kept
  · exact absurd paired (not_paired_installSide linked db side blank u v)

/-! The nodes of a walk come without links. -/

theorem blank_stageNodes {ctx : Context} {path : PathId} {offset : Double} {clockExpanded : Bool}
    {fresh : List PathNode} (walked : stageNodes ctx path offset clockExpanded = .ok fresh) :
    ∀ n ∈ fresh, n.unlinked = n := by
  rw [stageNodes] at walked
  split at walked
  · cases walked
  · next stages _ =>
    cases mapped : resolve ctx.database (keptStages clockExpanded stages) with
    | error _ =>
      rw [mapped] at walked
      cases walked
    | ok entries =>
      rw [mapped] at walked
      obtain rfl := Except.ok.inj walked
      intro n member
      obtain ⟨⟨stage, terminal⟩, _, rfl⟩ := List.mem_map.mp member
      rfl

/-! Pairing joins nodes that share a pin. -/

/-- The pairs that pairing makes, in its order: each capture node with the last launch node on its
pin. -/
def commonPairs (r : PathRecord) : List (NodeId × NodeId) :=
  r.captureIds.filterMap fun id =>
    (r.nodes.get? id).bind fun n => r.launchByPin[n.pin]?.map fun launchId => (launchId, id)

theorem shares_of_mem_commonPairs {entry : NodeId × NodeId} (member : entry ∈ r.commonPairs) :
    r.Shares entry.1 entry.2 := by
  obtain ⟨capture, listed, known⟩ := List.mem_filterMap.mp member
  obtain ⟨n, found, known⟩ := Option.bind_eq_some_iff.mp known
  obtain ⟨launch, met, rfl⟩ := Option.map_eq_some_iff.mp known
  obtain ⟨id, listed', known'⟩ := List.mem_filterMap.mp (mem_of_getElem?_ofList met)
  obtain ⟨m, found', same⟩ := Option.map_eq_some_iff.mp known'
  obtain ⟨pin, rfl⟩ := Prod.mk.inj same
  refine ⟨.launch, n.pin, m.flags.isSink, n.flags.isSink, listed', listed, ?_, ?_⟩
  · rw [role, found', Option.map_some, PathNode.role, pin]
  · rw [role, found, Option.map_some, PathNode.role]

/-- Pairing nodes that share a pin, one pair after the other. -/
theorem linked_pairAll {pairs : List (NodeId × NodeId)} {a : NodeArena}
    (shared : ∀ entry ∈ pairs, r.Shares entry.1 entry.2)
    (paired : ∀ {x y}, a.Linked .pair x y → a.Linked .pair y x ∧ r.Shares x y) :
    let after := pairs.foldl (fun nodes (x, y) => (nodes.pair x y).2) a
    (∀ x y, after.Linked .counterpart x y ↔ a.Linked .counterpart x y) ∧
      ∀ x y, after.Linked .pair x y → after.Linked .pair y x ∧ r.Shares x y := by
  induction pairs generalizing a with
  | nil => exact ⟨fun _ _ => Iff.rfl, fun _ _ => paired⟩
  | cons first rest ih =>
    obtain ⟨p, q⟩ := first
    have here : r.Shares p q := shared (p, q) List.mem_cons_self
    have step {x y} (linked : (a.pair p q).2.Linked .pair x y) :
        (a.pair p q).2.Linked .pair y x ∧ r.Shares x y := by
      rw [linked_pair] at linked ⊢
      rcases linked with before | ⟨linkable, ⟨rfl, rfl⟩ | ⟨rfl, rfl⟩⟩
      · exact ⟨.inl (paired before).1, (paired before).2⟩
      · exact ⟨.inr ⟨linkable, .inr ⟨rfl, rfl⟩⟩, here⟩
      · exact ⟨.inr ⟨linkable, .inl ⟨rfl, rfl⟩⟩, here.symm⟩
    obtain ⟨counterparts, pairs⟩ :=
      ih (fun e member => shared e (List.mem_cons_of_mem _ member)) step
    exact ⟨fun x y => (counterparts x y).trans (counterpart_pair a p q x y), pairs⟩

theorem Shares.of_same (ids : ∀ side, r'.ids side = r.ids side)
    (roles : ∀ id, r'.nodes.role id = r.nodes.role id) (shares : r.Shares x y) : r'.Shares x y := by
  obtain ⟨side, pin, s, t, first, second, role, role'⟩ := shares
  exact ⟨side, pin, s, t, ids side ▸ first, ids side.other ▸ second, (roles x).trans role,
    (roles y).trans role'⟩

theorem role_pairCommonNodes (r : PathRecord) (id : NodeId) :
    r.pairCommonNodes.nodes.role id = r.nodes.role id := by
  rw [role_eq, pairCommonNodes, data_pairAll, ← role_eq]

theorem WellLinked.pairCommonNodes (linked : r.WellLinked) : r.pairCommonNodes.WellLinked := by
  have ids (side) : r.pairCommonNodes.ids side = r.ids side := by cases side <;> rfl
  have roles := r.role_pairCommonNodes
  obtain ⟨counterparts, pairs⟩ :=
    linked_pairAll (fun _ member => shares_of_mem_commonPairs (r := r) member) linked.paired
  refine ⟨linked.whole.pairCommonNodes, fun side => ?_, fun {x y} paired => ?_⟩
  · rw [ids]
    exact (linked.matched side).of_same (fun id _ => roles id) fun x _ y => counterparts x y
  · obtain ⟨back, shares⟩ := pairs x y paired
    exact ⟨back, shares.of_same ids roles⟩

/-! The slack touches no link. -/

theorem frame_setSlackAll (slack : Double) (ids : List NodeId) (a : NodeArena) :
    let after := ids.foldl (fun nodes id => nodes.modify id (·.setSlack slack)) a
    (∀ id, after.role id = a.role id) ∧ ∀ kind x y, after.Linked kind x y ↔ a.Linked kind x y := by
  induction ids generalizing a with
  | nil => exact ⟨fun _ => rfl, fun _ _ _ => Iff.rfl⟩
  | cons first rest ih =>
    obtain ⟨roles, links⟩ := ih (a.modify first (·.setSlack slack))
    refine ⟨fun id => (roles id).trans (role_modify fun _ => rfl), fun kind x y => ?_⟩
    refine (links kind x y).trans (linked_modify fun n y => ?_)
    cases kind <;> rfl

theorem WellLinked.of_same (linked : r.WellLinked) (whole : r'.Partitioned)
    (ids : ∀ side, r'.ids side = r.ids side) (roles : ∀ id, r'.nodes.role id = r.nodes.role id)
    (links : ∀ kind x y, r'.nodes.Linked kind x y ↔ r.nodes.Linked kind x y) : r'.WellLinked where
  whole := whole
  matched side := by
    rw [ids]
    exact (linked.matched side).of_same (fun id _ => roles id) fun x _ y => links .counterpart x y
  paired {x y} paired := by
    obtain ⟨back, shares⟩ := linked.paired ((links .pair x y).mp paired)
    exact ⟨(links .pair y x).mpr back, shares.of_same ids roles⟩

theorem WellLinked.spreadSlack (linked : r.WellLinked) : r.spreadSlack.WellLinked := by
  obtain ⟨roles, links⟩ := frame_setSlackAll r.slack r.launchIds r.nodes
  exact linked.of_same linked.whole.spreadSlack (fun side => by cases side <;> rfl) roles links

/-! Any sequence of operations. -/

/-- One operation on a record. A walk that fails leaves the record as it is. -/
inductive Operation where
  | populateLaunch (ctx : Context) (path : PathId) (clockExpanded : Bool)
  | populateCapture (ctx : Context) (path : PathId) (offset : Double) (clockExpanded : Bool)
  | pairCommonNodes
  | computeClockEnds
  | spreadSlack
  | applySummary (summary : PathSummary)
  | set (setting : Setting)

def step (r : PathRecord) : Operation → PathRecord
  | .populateLaunch ctx path clockExpanded =>
    (r.populateLaunch ctx path clockExpanded).toOption.getD r
  | .populateCapture ctx path offset clockExpanded =>
    (r.populateCapture ctx path offset clockExpanded).toOption.getD r
  | .pairCommonNodes => r.pairCommonNodes
  | .computeClockEnds => r.computeClockEnds
  | .spreadSlack => r.spreadSlack
  | .applySummary summary => r.applySummary summary
  | .set setting => r.set setting

def run (r : PathRecord) (operations : List Operation) : PathRecord := operations.foldl step r

theorem WellLinked.populate (linked : r.WellLinked) (ctx : Context) (path : PathId)
    (offset : Double) (clockExpanded : Bool) (side : Side) :
    (((stageNodes ctx path offset clockExpanded).map
      (r.installSide ctx.database side)).toOption.getD r).WellLinked := by
  cases walked : stageNodes ctx path offset clockExpanded with
  | error _ => exact linked
  | ok fresh => exact linked.installSide ctx.database side (blank_stageNodes walked)

theorem WellLinked.step (linked : r.WellLinked) (operation : Operation) :
    (r.step operation).WellLinked := by
  cases operation with
  | populateLaunch ctx path clockExpanded => exact linked.populate ctx path 0 clockExpanded .launch
  | populateCapture ctx path offset clockExpanded =>
    exact linked.populate ctx path offset clockExpanded .capture
  | pairCommonNodes => exact linked.pairCommonNodes
  | computeClockEnds | applySummary =>
    exact linked.of_same linked.whole (fun side => by cases side <;> rfl) (fun _ => rfl)
      fun _ _ _ => Iff.rfl
  | spreadSlack => exact linked.spreadSlack
  | set setting =>
    have nodes : (r.set setting).nodes = r.nodes := by cases setting <;> rfl
    have ids (side) : (r.set setting).ids side = r.ids side := by
      cases side <;> cases setting <;> rfl
    refine linked.of_same ?_ ids (fun _ => by rw [PathRecord.step, nodes])
      fun _ _ _ => by rw [PathRecord.step, nodes]
    exact linked.whole.of_size (ids .launch) (ids .capture) (congrArg (·.nodes.size) nodes)

theorem WellLinked.run (linked : r.WellLinked) (operations : List Operation) :
    (r.run operations).WellLinked := by
  induction operations generalizing r with
  | nil => exact linked
  | cons operation rest ih => exact ih (linked.step operation)

theorem mem_ids_iff (whole : r.Partitioned) (id : NodeId) :
    id ∈ r.launchIds ++ r.captureIds ↔ ∃ n, r.nodes.get? id = some n := by
  rw [whole.mem_iff, mem_ids, ← isSome_get?, Option.isSome_iff_exists]

theorem WellLinked.exists_paired (linked : r.WellLinked) {n : PathNode}
    (found : r.nodes.get? x = some n) (member : y ∈ n.paired) :
    y ≠ x ∧ ∃ m, r.nodes.get? y = some m ∧ x ∈ m.paired ∧ m.pin = n.pin ∧
      ∃ side, x ∈ r.ids side ∧ y ∈ r.ids side.other := by
  obtain ⟨⟨m, found', back⟩, side, pin, s, t, first, second, role, role'⟩ :=
    linked.paired ⟨n, found, member⟩
  have pins : m.pin = n.pin := (eq_of_role found' role').1.trans (eq_of_role found role).1.symm
  refine ⟨?_, m, found', back, pins, side, first, second⟩
  rintro rfl
  exact linked.whole.apart first second

theorem WellLinked.exists_counterpart (linked : r.WellLinked) {n : PathNode}
    (found : r.nodes.get? x = some n) (points : n.instanceNode = some y) :
    ∃ m, r.nodes.get? y = some m ∧ m.instanceNode = some x ∧ ∃ side i,
      (r.ids side)[i]? = some x ∧ (r.ids side)[i + 1]? = some y ∧
          n.flags.isSink = true ∧ m.flags.isSink = false ∨
        (r.ids side)[i]? = some y ∧ (r.ids side)[i + 1]? = some x ∧
          m.flags.isSink = true ∧ n.flags.isSink = false := by
  obtain ⟨side, member⟩ : ∃ side, x ∈ r.ids side := by
    rcases List.mem_append.mp ((mem_ids_iff linked.whole x).mpr ⟨n, found⟩) with launch | capture
    · exact ⟨.launch, launch⟩
    · exact ⟨.capture, capture⟩
  obtain ⟨⟨m, found', back⟩, either⟩ := linked.matched side x member y ⟨n, found, points⟩
  refine ⟨m, found', back, side, ?_⟩
  rcases either with ⟨i, _, _, here, next, sink, source⟩ | ⟨i, _, _, here, next, sink, source⟩
  · exact ⟨i, .inl ⟨here, next, (eq_of_role found sink).2, (eq_of_role found' source).2⟩⟩
  · exact ⟨i, .inr ⟨here, next, (eq_of_role found' sink).2, (eq_of_role found source).2⟩⟩

/-- How the nodes of a record are linked after any operations. Every node stands once on one of the
sides. Pairs are mutual and join the sides on one pin. Counterparts are mutual too, and stand next
to each other on one side, first a sink and then a source. -/
theorem links_of_run (operations : List Operation) :
    let r := PathRecord.empty.run operations
    (r.launchIds ++ r.captureIds).Nodup ∧
      (∀ id, id ∈ r.launchIds ++ r.captureIds ↔ ∃ n, r.nodes.get? id = some n) ∧
      (∀ x y n, r.nodes.get? x = some n → y ∈ n.paired →
        y ≠ x ∧ ∃ m, r.nodes.get? y = some m ∧ x ∈ m.paired ∧ m.pin = n.pin ∧
          ∃ side, x ∈ r.ids side ∧ y ∈ r.ids side.other) ∧
      ∀ x y n, r.nodes.get? x = some n → n.instanceNode = some y →
        ∃ m, r.nodes.get? y = some m ∧ m.instanceNode = some x ∧ ∃ side i,
          (r.ids side)[i]? = some x ∧ (r.ids side)[i + 1]? = some y ∧
              n.flags.isSink = true ∧ m.flags.isSink = false ∨
            (r.ids side)[i]? = some y ∧ (r.ids side)[i + 1]? = some x ∧
              m.flags.isSink = true ∧ n.flags.isSink = false := by
  intro r
  have linked : r.WellLinked := WellLinked.empty.run operations
  exact ⟨linked.whole.nodup, mem_ids_iff linked.whole, fun _ _ _ => linked.exists_paired,
    fun _ _ _ => linked.exists_counterpart⟩

/-- A clock that goes through one buffer: the block pin that drives it, the buffer's input and its
output. -/
def buffer : Context where
  engine :=
    { defaultCorner := none, findCorner := fun _ => none, cornerName := fun _ => none
      findPaths := fun _ => [], pathSummary := fun _ => none
      pathStages := fun path => if path = ⟨0⟩ then
          some ([(0, false), (1, true), (2, false)].map fun (pin, isSink) =>
            { pin := ⟨pin⟩, isClock := true, isRising := true, isSink, arrival := 0, delay := 0
              slew := 0, load := 0 })
        else none
      capturePath := fun _ => none, pinTiming := fun _ _ => none, containsPin := fun _ => true
      pinNet := fun _ => none, netDrivers := fun _ => [], netLoads := fun _ => []
      pinInstance := fun _ => none, isLoadPin := fun _ => false, isClockPin := fun _ => true
      instanceArcs := fun _ _ => [] }
  database :=
    { terminal := fun pin => some (.ofInstance ⟨pin.raw⟩), timingPin := fun _ => none
      pinName := fun _ => none, pinShapes := fun _ => [], pinInstance := fun _ => some ⟨0⟩
      pinNet := fun _ => none, instanceName := fun _ => none, instanceMaster := fun _ => none
      netName := fun _ => none }

/-- Both sides are populated and paired, the launch side a second time, and a walk fails. -/
def repopulated : List Operation := [
  .populateLaunch buffer ⟨0⟩ true, .populateCapture buffer ⟨0⟩ 1 true, .pairCommonNodes,
  .populateLaunch buffer ⟨0⟩ true, .populateCapture buffer ⟨9⟩ 0 true, .pairCommonNodes]

theorem links_of_run_repopulated : ∃ input output shared,
    (PathRecord.empty.run repopulated).nodes.get? ⟨4⟩ = some input ∧
      input.instanceNode = some ⟨5⟩ ∧ ⟨1⟩ ∈ input.paired ∧
      (PathRecord.empty.run repopulated).nodes.get? ⟨5⟩ = some output ∧
      output.instanceNode = some ⟨4⟩ ∧
      (PathRecord.empty.run repopulated).nodes.get? ⟨1⟩ = some shared ∧
      ⟨4⟩ ∈ shared.paired ∧ shared.pin = input.pin := by
  obtain ⟨input, found⟩ : ∃ n, (PathRecord.empty.run repopulated).nodes.get? ⟨4⟩ = some n :=
    ⟨_, rfl⟩
  have points : input.instanceNode = some ⟨5⟩ := by
    obtain rfl := Option.some.inj found
    rfl
  have paired : ⟨1⟩ ∈ input.paired := by
    obtain rfl := Option.some.inj found
    rfl
  obtain ⟨_, _, pairs, counterparts⟩ := links_of_run repopulated
  obtain ⟨_, shared, found', back, same, _⟩ := pairs _ _ _ found paired
  obtain ⟨output, found'', back', _⟩ := counterparts _ _ _ found points
  exact ⟨input, output, shared, found, points, paired, found'', back', found', back, same⟩

end PathRecord

end TimingExplorer
