import TimingExplorer.Proofs.Cone.Linking
import TimingExplorer.Proofs.Query.Cones

/-!
The nodes of a cone that was built: one for each pin of its depth map, numbered in order of depth
and pin, each linked as its pin says.
-/
namespace TimingExplorer

/-- Building the cone of a seed leaves a depth map and nodes, whether a builder with both sources is
asked or a service that is bound to them. -/
inductive Context.BuildsCone (ctx : Context) (direction : ConeDirection) (m : DepthMap)
    (l : NodesByDepth) : Prop where
  | builder (seed : PinId) (point : AnalysisPoint) (earlier : DepthMap)
      (built : (ConeBuilder.ofContext ctx).build seed direction point earlier = (m, .ok l))
  | service (s : QueryService) (config : AnalysisConfig) (seed : PinId) (earlier : DepthMap)
      (bound : s.context = .ok ctx)
      (built : s.buildConeWith config direction seed earlier = (m, .ok l))

variable {ctx : Context} {direction : ConeDirection} {m : DepthMap} {l : NodesByDepth}
  {point : AnalysisPoint}

theorem ConeBuilder.of_build_eq_ok {seed : PinId} {earlier : DepthMap}
    (built : (ofContext ctx).build seed direction point earlier = (m, .ok l)) :
    ctx.engine.cone seed direction = .ok m ∧ (ofContext ctx).annotate point m .empty = .ok l := by
  unfold build at built
  split at built
  · cases built
  · next found =>
    obtain ⟨rfl, annotated⟩ := Prod.mk.inj built
    exact ⟨found, annotated⟩

theorem Context.exists_buildsCone (seed : PinId) (point : AnalysisPoint)
    (found : ctx.engine.cone seed direction = .ok m)
    (made : ∃ l, (ConeBuilder.ofContext ctx).annotate point m .empty = .ok l) :
    ∃ l, ctx.BuildsCone direction m l := by
  obtain ⟨l, made⟩ := made
  refine ⟨l, .builder seed point ∅ ?_⟩
  rw [ConeBuilder.build, show (ConeBuilder.ofContext ctx).engine.cone seed direction = .ok m
    from found]
  exact congrArg (m, ·) made

theorem Context.BuildsCone.exists_annotate (builds : ctx.BuildsCone direction m l) :
    ∃ seed point, ctx.engine.cone seed direction = .ok m ∧
      (ConeBuilder.ofContext ctx).annotate point m .empty = .ok l := by
  cases builds with
  | builder seed point earlier built =>
    exact ⟨seed, point, ConeBuilder.of_build_eq_ok built⟩
  | service s config seed earlier bound built =>
    cases resolved : QueryService.pointOf ctx.engine config with
    | error e =>
      rw [QueryService.buildConeWith_of_unresolved bound resolved] at built
      cases built
    | ok point =>
      rw [QueryService.buildConeWith_of_point bound resolved] at built
      exact ⟨seed, point, ConeBuilder.of_build_eq_ok built⟩

/-- The nodes of a cone: one for each pin, numbered in order of depth and pin, and their links. -/
structure NodesByDepth.StandsFor (l : NodesByDepth) (ctx : Context) (m : DepthMap) : Prop where
  distinct : m.pins.Nodup
  pin_iff : ∀ x p, m.pins[x.raw]? = some p ↔ ∃ n, l.node? x = some n ∧ n.pin = p
  shows : ∀ x n, l.node? x = some n → PathNode.ShowsPin ctx n.pin n.unlinked
  paired : ∀ x y, l.nodes.Linked .pair x y ↔ ∃ p q, m.pins[x.raw]? = some p ∧
    m.pins[y.raw]? = some q ∧ (ctx.engine.Feeds p q ∨ ctx.engine.Feeds q p)
  counterpart : ∀ x p y, m.pins[x.raw]? = some p → (l.nodes.counterpart? x = some y ↔
    ∃ q, ctx.engine.partner? m.pins p = some q ∧ m.pins[y.raw]? = some q)

namespace ConeBuilder

open NodeArena

variable {entries : List (Int × PinId)} {built : List (Int × PathNode)}

theorem Makes.map_pin (makes : Makes ctx point entries built) :
    (built.map fun (_, node) => node.pin) = entries.map Prod.snd := by
  induction makes with
  | nil => rfl
  | cons first _ ih => exact congrArg₂ _ (PathNode.showsPin_ofPin first.2).same ih

/-- The nodes stored first get the numbers of their places. -/
theorem zip_ids_pushAll (built : List (Int × PathNode)) :
    (built.map fun (_, node) => node.pin).zip (NodesByDepth.empty.pushAll built).1 =
      NodesByDepth.empty.numbered (built.map fun (_, node) => node.pin) := by
  have ids : (NodesByDepth.empty.pushAll built).1 = (List.range' 0 built.length).map Id.mk := by
    rw [(NodesByDepth.empty.nodes_pushAll built).2, ids_allocAll, List.length_map]
    rfl
  have size : NodesByDepth.empty.size = 0 := rfl
  rw [ids, NodesByDepth.numbered, size, List.zipIdx_eq_zip_range', List.length_map,
    List.zip_map_right]
  rfl

/-- How the nodes of a cone are linked, as made from its pins. -/
theorem nodes_of_annotate (annotated : (ofContext ctx).annotate point m .empty = .ok l) :
    ∃ built, Makes ctx point m.entries built ∧
      l.nodes = linkConnectivity ctx.engine (NodesByDepth.empty.numbered m.pins)
        (NodeArena.empty.allocAll (built.map Prod.snd)).2 := by
  obtain ⟨built, made, done⟩ := bind_eq_ok.mp annotated
  obtain rfl := Except.ok.inj done
  have makes := makes_of_nodesOf made
  refine ⟨built, makes, ?_⟩
  rw [DepthMap.pins, ← makes.map_pin, ← zip_ids_pushAll]
  dsimp only
  rw [(NodesByDepth.empty.nodes_pushAll built).1]
  rfl

end ConeBuilder

namespace NodesByDepth

open NodeArena

variable {x y : NodeId} {p : PinId} {n : PathNode}

theorem Extends.exists_node (made : empty.Extends ctx point m.entries l)
    (place : m.pins[x.raw]? = some p) :
    ∃ n, l.node? x = some n ∧ PathNode.ShowsPin ctx p n.unlinked := by
  rw [DepthMap.pins, List.getElem?_map, Option.map_eq_some_iff] at place
  obtain ⟨⟨depth, pin⟩, place, rfl⟩ := place
  obtain ⟨n, found, own⟩ := made.made depth pin x (mem_numbered_empty.mpr place)
  exact ⟨n, found, PathNode.showsPin_ofPin own⟩

theorem Extends.exists_place (made : empty.Extends ctx point m.entries l)
    (found : l.node? x = some n) : ∃ p, m.pins[x.raw]? = some p := by
  have inside : x.raw < l.size := by
    apply NodeArena.contains_iff.mp
    rw [← isSome_get?, show l.nodes.get? x = some n from found, Option.isSome_some]
  have size : empty.size = 0 := rfl
  rw [made.size, size, Nat.zero_add] at inside
  exact ⟨_, List.getElem?_eq_getElem (by rwa [DepthMap.pins, List.length_map])⟩

end NodesByDepth

theorem Context.BuildsCone.standsFor (builds : ctx.BuildsCone direction m l) :
    l.StandsFor ctx m := by
  obtain ⟨seed, point, found, annotated⟩ := builds.exists_annotate
  have made := ConeBuilder.extends_of_annotate
    (fun _ _ _ link => absurd link NodesByDepth.not_linked_empty) annotated
  have distinct := DepthMap.nodup_pins (TimingEngine.single_of_cone found)
  obtain ⟨built, makes, nodes⟩ := ConeBuilder.nodes_of_annotate annotated
  let a := (NodeArena.empty.allocAll (built.map Prod.snd)).2
  have unlinked {kind x y} : ¬ a.Linked kind x y := by
    rw [NodeArena.linked_allocAll makes.blank]
    exact NodesByDepth.not_linked_empty
  have known : ∀ p x, m.pins[x.raw]? = some p → a.contains x = true := by
    rintro p ⟨raw⟩ place
    rw [DepthMap.pins, List.getElem?_map, Option.map_eq_some_iff] at place
    obtain ⟨entry, place, -⟩ := place
    obtain ⟨n, stored, -⟩ := makes.get? place
    rw [← NodeArena.isSome_get?, NodeArena.get?_eq, NodeArena.toList_allocAll]
    exact Option.isSome_of_eq_some stored
  refine ⟨distinct, fun x p => ⟨fun place => ?_, ?_⟩, fun x n here => ?_, fun x y => ?_,
    fun x p y place => ?_⟩
  · obtain ⟨n, here, shows⟩ := made.exists_node place
    exact ⟨n, here, shows.same⟩
  · rintro ⟨n, here, rfl⟩
    obtain ⟨p, place⟩ := made.exists_place here
    obtain ⟨n', here', shows⟩ := made.exists_node place
    obtain rfl := Option.some.inj (here.symm.trans here')
    exact place.trans (congrArg some shows.same.symm)
  · obtain ⟨p, place⟩ := made.exists_place here
    obtain ⟨n', here', shows⟩ := made.exists_node place
    obtain rfl := Option.some.inj (here.symm.trans here')
    obtain rfl : n.pin = p := shows.same
    exact shows
  · rw [nodes]
    exact ConeBuilder.paired_numbered distinct known unlinked
  · rw [nodes]
    apply ConeBuilder.counterpart?_numbered distinct known ?_ place
    rw [Option.eq_none_iff_forall_not_mem]
    intro target points
    exact unlinked (NodeArena.linked_counterpart_iff.mpr points)

namespace NodesByDepth

variable {x y : NodeId} {n : PathNode}

theorem StandsFor.mem_pins_iff (nodes : l.StandsFor ctx m) (p : PinId) :
    p ∈ m.pins ↔ ∃ x n, l.node? x = some n ∧ n.pin = p := by
  constructor
  · intro listed
    obtain ⟨raw, place⟩ := List.mem_iff_getElem?.mp listed
    exact ⟨⟨raw⟩, (nodes.pin_iff ⟨raw⟩ p).mp place⟩
  · rintro ⟨x, n, here⟩
    exact List.mem_of_getElem? ((nodes.pin_iff x p).mpr ⟨n, here⟩)

theorem StandsFor.eq_of_pin (nodes : l.StandsFor ctx m) {x y : NodeId} {n n' : PathNode}
    (here : l.node? x = some n) (there : l.node? y = some n') (same : n.pin = n'.pin) : x = y := by
  have first := (nodes.pin_iff x _).mpr ⟨n, here, same⟩
  have second := (nodes.pin_iff y _).mpr ⟨n', there, rfl⟩
  obtain ⟨raw⟩ := x
  exact congrArg Id.mk (place_unique nodes.distinct first second)

/-- The pins of the nodes that a node is paired with. -/
theorem StandsFor.mem_paired_iff (nodes : l.StandsFor ctx m) (here : l.node? x = some n) :
    y ∈ n.paired ↔ ∃ q, m.pins[y.raw]? = some q ∧
      (ctx.engine.Feeds n.pin q ∨ ctx.engine.Feeds q n.pin) := by
  have linked : l.nodes.Linked .pair x y ↔ y ∈ n.paired := NodeArena.linked_iff here
  have place := (nodes.pin_iff x n.pin).mpr ⟨n, here, rfl⟩
  rw [← linked, nodes.paired]
  constructor
  · rintro ⟨p, q, place', there, feeds⟩
    obtain rfl := Option.some.inj (place.symm.trans place')
    exact ⟨q, there, feeds⟩
  · rintro ⟨q, there, feeds⟩
    exact ⟨n.pin, q, place, there, feeds⟩

/-- They are as many as the pairs, and each is listed once. -/
theorem StandsFor.exists_partners (nodes : l.StandsFor ctx m) (here : l.node? x = some n) :
    ∃ partners : List PinId, partners.Nodup ∧ partners.length = n.paired.size ∧
      ∀ q, q ∈ partners ↔ q ∈ m.pins ∧ (ctx.engine.Feeds n.pin q ∨ ctx.engine.Feeds q n.pin) := by
  let pin (y : NodeId) : Option PinId := m.pins[y.raw]?
  have found : ∀ y ∈ n.paired.toList, (pin y).isSome = true := by
    intro y member
    obtain ⟨q, there, _⟩ := (nodes.mem_paired_iff here).mp (Std.TreeSet.mem_toList.mp member)
    exact Option.isSome_of_eq_some there
  refine ⟨n.paired.toList.filterMap pin, ?_, ?_, ?_⟩
  · have distinct : n.paired.toList.Nodup :=
      Std.TreeSet.distinct_toList.imp fun differs same => differs (Std.compare_eq_iff_eq.mpr same)
    refine distinct.filterMap ?_
    rintro ⟨y⟩ ⟨z⟩ q first second
    exact congrArg Id.mk (place_unique nodes.distinct first second)
  · rw [← Std.TreeSet.length_toList, ← List.length_map (f := some), map_some_filterMap found,
      List.length_map]
  · intro q
    simp only [List.mem_filterMap, Std.TreeSet.mem_toList, nodes.mem_paired_iff here]
    constructor
    · rintro ⟨y, ⟨q', there, feeds⟩, there'⟩
      obtain rfl := Option.some.inj (there.symm.trans there')
      exact ⟨List.mem_of_getElem? there, feeds⟩
    · rintro ⟨listed, feeds⟩
      obtain ⟨raw, there⟩ := List.mem_iff_getElem?.mp listed
      exact ⟨⟨raw⟩, ⟨q, there, feeds⟩, there⟩

/-! Where all partners lie across the net in one direction, they are as many as the pins there that
the cone holds. -/

section OneWay

variable {way : Direction} (nodes : l.StandsFor ctx m) (here : l.node? x = some n)
  (hops : ∀ q, ctx.engine.Feeds n.pin q ∨ ctx.engine.Feeds q n.pin ↔
    ctx.engine.NetHop way n.pin q)

include nodes here hops

theorem StandsFor.size_paired_le :
    n.paired.size ≤ (ctx.engine.netNeighbors way n.pin).length := by
  obtain ⟨partners, distinct, count, mem_partners⟩ := nodes.exists_partners here
  rw [← count]
  apply List.Subperm.length_le
  apply List.subperm_of_subset distinct
  intro q member
  exact TimingEngine.mem_netNeighbors.mpr ((hops q).mp ((mem_partners q).mp member).2)

theorem StandsFor.size_paired_eq
    (complete : ∀ q, ctx.engine.NetHop way n.pin q → q ∈ m.pins)
    (once : (ctx.engine.netNeighbors way n.pin).Nodup) :
    n.paired.size = (ctx.engine.netNeighbors way n.pin).length := by
  obtain ⟨partners, distinct, count, mem_partners⟩ := nodes.exists_partners here
  rw [← count]
  apply List.Perm.length_eq
  rw [List.perm_ext_iff_of_nodup distinct once]
  intro q
  rw [mem_partners, TimingEngine.mem_netNeighbors, hops]
  exact and_iff_right_of_imp (complete q)

end OneWay

end NodesByDepth

end TimingExplorer
