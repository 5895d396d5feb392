import TimingExplorer.Proofs.Cone.Appending
import TimingExplorer.Proofs.Cone.Merge

/-!
How the nodes of a new cone are linked. The nodes are numbered in the order of the pins, so their
links can be told from the pins alone. Pairs only add up. A counterpart is never replaced, so each
node keeps the first that it is offered, by itself or by the node at the other end of an arc.
-/
namespace TimingExplorer

/-- The other end of a link between two different ends. -/
def otherEnd {α : Type} [DecidableEq α] (x y u : α) : Option α :=
  if x = y then none else if u = x then some y else if u = y then some x else none

theorem otherEnd_eq_some_iff {α : Type} [DecidableEq α] {x y u v : α} :
    otherEnd x y u = some v ↔ x ≠ y ∧ (u = x ∧ v = y ∨ u = y ∧ v = x) := by
  unfold otherEnd
  by_cases same : x = y
  · simp [same]
  · by_cases first : u = x
    · simp [same, first, eq_comm]
    · simp [same, first, eq_comm]

/-- Ends that are named apart are told apart by their names. -/
theorem otherEnd_named {α β : Type} [DecidableEq α] [DecidableEq β] {name : α → Option β}
    (apart : ∀ {x y z}, name x = some z → name y = some z → x = y) {x y u : α} {x' y' u' : β}
    (first : name x = some x') (second : name y = some y') (here : name u = some u') :
    otherEnd x' y' u' = (otherEnd x y u).bind name := by
  have same_iff {x y : α} {x' y' : β} (first : name x = some x') (second : name y = some y') :
      x' = y' ↔ x = y := by
    constructor
    · rintro rfl
      exact apart first second
    · rintro rfl
      exact Option.some.inj (first.symm.trans second)
  simp only [otherEnd, same_iff first second, same_iff here first, same_iff here second]
  split
  · rfl
  · split
    · exact second.symm
    · split
      · exact first.symm
      · rfl

theorem findSome?_filterMap {α β γ : Type} (f : α → Option β) (g : β → Option γ) (items : List α) :
    (items.filterMap f).findSome? g = items.findSome? fun item => (f item).bind g := by
  induction items with
  | nil => rfl
  | cons first rest ih => cases here : f first <;> simp [here, ih, List.findSome?_cons]

/-- A first success can be renamed afterwards, if every success has a name. -/
theorem findSome?_eq_bind {α β γ : Type} {f : α → Option γ} {g : α → Option β} {name : β → Option γ}
    {items : List α} (same : ∀ item ∈ items, f item = (g item).bind name)
    (named : ∀ item ∈ items, ∀ b, g item = some b → (name b).isSome = true) :
    items.findSome? f = (items.findSome? g).bind name := by
  induction items with
  | nil => rfl
  | cons first rest ih =>
    have later := ih (fun item member => same item (List.mem_cons_of_mem _ member))
      fun item member => named item (List.mem_cons_of_mem _ member)
    rw [List.findSome?_cons, List.findSome?_cons, same first List.mem_cons_self]
    cases here : g first with
    | none => exact later
    | some b =>
      obtain ⟨c, known⟩ := Option.isSome_iff_exists.mp (named first List.mem_cons_self b here)
      simp [known]

namespace ConeBuilder

open NodeArena

variable {a : NodeArena} {u v x y id : NodeId} {pin : PinId} {engine : TimingEngine}
  {byPin : Std.TreeMap PinId NodeId} {fresh : List (PinId × NodeId)}

theorem contains_pointIfFree : (pointIfFree a x y).contains u = a.contains u := by
  have links : LinksWithin (fun _ => True) a (pointIfFree a x y) :=
    linksWithin_pointIfFree a trivial trivial
  exact links.contains

theorem contains_linkNode : (linkNode engine byPin a pin id).contains u = a.contains u := by
  have links : LinksWithin (fun _ => True) a (linkNode engine byPin a pin id) :=
    linksWithin_linkNode a pin trivial fun _ _ _ => trivial
  exact links.contains

theorem counterpart?_pointIfFree (linkable : a.linkable x y = true) :
    (pointIfFree a x y).counterpart? u =
      (a.counterpart? u).or (if u = x then some y else none) := by
  have known : a.contains x = true := by
    simp only [NodeArena.linkable, Bool.and_eq_true] at linkable
    exact linkable.1.2
  rw [← isSome_get?, Option.isSome_iff_exists] at known
  obtain ⟨n, found⟩ := known
  have here : a.counterpart? x = n.instanceNode := by rw [counterpart?, found, Option.bind_some]
  unfold pointIfFree
  rw [found, Option.any_some]
  cases free : n.instanceNode with
  | none =>
    rw [Option.isNone_none, if_pos rfl, counterpart?_setInstanceNode linkable]
    split
    · next same => rw [same, here, free, Option.none_or]
    · rw [Option.or_none]
  | some other =>
    rw [Option.isNone_some, if_neg Bool.false_ne_true]
    split
    · next same => rw [same, here, free, Option.some_or]
    · rw [Option.or_none]

/-- The two ends of an arc are made to point at each other, as far as they are free. -/
theorem counterpart?_join (first : a.contains x = true) (second : a.contains y = true) :
    (pointIfFree (pointIfFree a x y) y x).counterpart? u =
      (a.counterpart? u).or (otherEnd x y u) := by
  unfold otherEnd
  by_cases same : x = y
  · have refused (b : NodeArena) : pointIfFree b x x = b := by
      simp [pointIfFree, setInstanceNode, NodeArena.linkable]
    rw [if_pos same, ← same, refused, refused, Option.or_none]
  · have linkable : a.linkable x y = true := by
      simp [NodeArena.linkable, same, first, second]
    have linkable' : (pointIfFree a x y).linkable y x = true := by
      simp [NodeArena.linkable, Ne.symm same, contains_pointIfFree, first, second]
    rw [if_neg same, counterpart?_pointIfFree linkable', counterpart?_pointIfFree linkable,
      Option.or_assoc]
    congr 1
    by_cases here : u = x
    · simp [here]
    · simp [here]

/-- The counterpart that a load offers to a node: the other end of the first of its arcs that the
node is an end of. -/
def offer (engine : TimingEngine) (byPin : Std.TreeMap PinId NodeId) (u : NodeId)
    (entry : PinId × NodeId) : Option NodeId :=
  if engine.isLoadPin entry.1 then
    (engine.instanceArcs entry.1 .forward).findSome? fun output =>
      (byPin[output]?).bind (otherEnd entry.2 · u)
  else none

/-- A node is paired with others if it is no load and these are the loads of its net. -/
def JoinedBy (engine : TimingEngine) (byPin : Std.TreeMap PinId NodeId) (u v : NodeId)
    (entry : PinId × NodeId) : Prop :=
  engine.isLoadPin entry.1 = false ∧ ∃ net, engine.pinNet entry.1 = some net ∧
    ∃ load ∈ engine.netLoads net, ∃ target, byPin[load]? = some target ∧ entry.2 ≠ target ∧
      (u = entry.2 ∧ v = target ∨ u = target ∧ v = entry.2)

theorem paired_pointIfFree : (pointIfFree a x y).Linked .pair u v ↔ a.Linked .pair u v := by
  unfold pointIfFree
  split
  · exact pair_setInstanceNode a x y u v
  · rfl

section Listed

variable (here : a.contains id = true) (listed : ∀ (pin : PinId) (target : NodeId),
  byPin[pin]? = some target → a.contains target = true)

include here listed

theorem counterpart?_linkNode : (linkNode engine byPin a pin id).counterpart? u =
    (a.counterpart? u).or (offer engine byPin u (pin, id)) := by
  unfold linkNode offer
  cases load : engine.isLoadPin pin with
  | true =>
    rw [if_pos rfl, if_pos rfl, ← findSome?_filterMap]
    let outputs := (engine.instanceArcs pin .forward).filterMap (byPin[·]?)
    -- No link is refused for want of a node: those of the load and of its outputs stay.
    let inv (a : NodeArena) : Prop := ∀ target ∈ id :: outputs, a.contains target = true
    have start : inv a := by
      refine List.forall_mem_cons.mpr ⟨here, fun target member => ?_⟩
      obtain ⟨output, _, known⟩ := List.mem_filterMap.mp member
      exact listed output target known
    refine counterpart?_foldl inv (fun a held output member => ⟨fun target known => ?_, ?_⟩) start
    · rw [contains_pointIfFree, contains_pointIfFree]
      exact held target known
    · exact counterpart?_join (held id List.mem_cons_self)
        (held output (List.mem_cons_of_mem _ member))
  | false =>
    rw [if_neg Bool.false_ne_true, if_neg Bool.false_ne_true, Option.or_none]
    cases engine.pinNet pin with
    | none => rfl
    | some net =>
      dsimp only
      generalize (engine.netLoads net).filterMap (byPin[·]?) = loads
      clear here listed
      induction loads generalizing a with
      | nil => rfl
      | cons first rest ih => exact ih.trans (counterpart?_pair ..)

theorem paired_linkNode : (linkNode engine byPin a pin id).Linked .pair u v ↔
    a.Linked .pair u v ∨ JoinedBy engine byPin u v (pin, id) := by
  unfold linkNode JoinedBy
  cases load : engine.isLoadPin pin with
  | true =>
    simp only [if_true, Bool.true_eq_false, false_and, or_false]
    generalize (engine.instanceArcs pin .forward).filterMap (byPin[·]?) = outputs
    clear here listed
    induction outputs generalizing a with
    | nil => rfl
    | cons first rest ih => exact ih.trans (paired_pointIfFree.trans paired_pointIfFree)
  | false =>
    rw [if_neg Bool.false_ne_true]
    cases engine.pinNet pin with
    | none => simp
    | some net =>
      let inv (a : NodeArena) : Prop := a.contains id = true ∧
        ∀ (pin : PinId) (target : NodeId), byPin[pin]? = some target → a.contains target = true
      have start : inv a := ⟨here, listed⟩
      have step : ∀ a, inv a → ∀ target ∈ (engine.netLoads net).filterMap (byPin[·]?),
          inv (a.pair id target).2 ∧ ((a.pair id target).2.Linked .pair u v ↔ a.Linked .pair u v ∨
            id ≠ target ∧ (u = id ∧ v = target ∨ u = target ∧ v = id)) := by
        intro a held target member
        obtain ⟨output, _, known⟩ := List.mem_filterMap.mp member
        refine ⟨⟨(contains_pair ..).trans held.1, fun pin target known => ?_⟩, ?_⟩
        · exact (contains_pair ..).trans (held.2 pin target known)
        · rw [linked_pair]
          simp [NodeArena.linkable, held.1, held.2 output target known]
      rw [paired_foldl inv step start]
      refine or_congr_right ?_
      simp only [List.mem_filterMap, true_and, Option.some.injEq, exists_eq_left']
      constructor
      · rintro ⟨target, ⟨load, listed, known⟩, ends⟩
        exact ⟨load, listed, target, known, ends⟩
      · rintro ⟨load, listed, target, known, ends⟩
        exact ⟨target, ⟨load, listed, known⟩, ends⟩

end Listed

theorem counterpart?_linkConnectivity (known : ∀ entry ∈ fresh, a.contains entry.2 = true) :
    (linkConnectivity engine fresh a).counterpart? u =
      (a.counterpart? u).or (fresh.findSome? (offer engine (.ofList fresh) u)) := by
  let inv (a : NodeArena) : Prop := ∀ entry ∈ fresh, a.contains entry.2 = true
  refine counterpart?_foldl inv ?_ known
  intro a held entry member
  refine ⟨fun entry' member' => contains_linkNode.trans (held entry' member'), ?_⟩
  apply counterpart?_linkNode (held entry member)
  intro pin target listed
  exact held (pin, target) (mem_of_getElem?_ofList listed)

theorem paired_linkConnectivity (known : ∀ entry ∈ fresh, a.contains entry.2 = true) :
    (linkConnectivity engine fresh a).Linked .pair u v ↔
      a.Linked .pair u v ∨ ∃ entry ∈ fresh, JoinedBy engine (.ofList fresh) u v entry := by
  let inv (a : NodeArena) : Prop := ∀ entry ∈ fresh, a.contains entry.2 = true
  refine paired_foldl inv ?_ known
  intro a held entry member
  refine ⟨fun entry' member' => contains_linkNode.trans (held entry' member'), ?_⟩
  apply paired_linkNode (held entry member)
  intro pin target listed
  exact held (pin, target) (mem_of_getElem?_ofList listed)

end ConeBuilder

/-! The same told from the pins. -/

namespace DepthMap

variable {m : DepthMap} {p : PinId}

/-- All pins, least depth first, and those of a depth in order. -/
def pins (m : DepthMap) : List PinId := m.entries.map Prod.snd

theorem mem_pins : p ∈ m.pins ↔ ∃ d, m.At d p := by
  simp [pins, mem_entries]

theorem nodup_pins (single : m.Single) : m.pins.Nodup := by
  rw [pins, List.Nodup, List.pairwise_map]
  refine m.pairwise_entries.imp_of_mem ?_
  rintro ⟨d, p⟩ ⟨e, q⟩ first second before same
  obtain rfl : p = q := same
  have depths := single (mem_entries.mp first) (mem_entries.mp second)
  rcases before with lower | ⟨_, lower⟩
  · exact Int.ne_of_lt lower depths
  · exact Nat.lt_irrefl _ lower

end DepthMap

namespace TimingEngine

/-- A pin that is no load drives the other loads of its net. -/
def Feeds (engine : TimingEngine) (p q : PinId) : Prop :=
  p ≠ q ∧ engine.isLoadPin p = false ∧ ∃ net, engine.pinNet p = some net ∧ q ∈ engine.netLoads net

/-- A cell arc from a load to another pin, both among the given ones. -/
def ArcAmong (engine : TimingEngine) (pins : List PinId) (input output : PinId) : Prop :=
  input ∈ pins ∧ output ∈ pins ∧ input ≠ output ∧ engine.isLoadPin input = true ∧
    output ∈ engine.instanceArcs input .forward

instance (engine : TimingEngine) (pins : List PinId) (input output : PinId) :
    Decidable (engine.ArcAmong pins input output) :=
  inferInstanceAs (Decidable (_ ∧ _ ∧ _ ∧ _ ∧ _))

/-- The other end of the first arc from an input to another of the given pins that a pin is an end
of. Only arcs from loads count. -/
def partnerAt (engine : TimingEngine) (pins : List PinId) (p input : PinId) : Option PinId :=
  if engine.isLoadPin input then
    (engine.instanceArcs input .forward).findSome? fun output =>
      if output ∈ pins then otherEnd input output p else none
  else none

/-- The pin that a pin is linked with through a cell: the other end of the first arc that it is an
end of, in order of the inputs. -/
def partner? (engine : TimingEngine) (pins : List PinId) (p : PinId) : Option PinId :=
  pins.findSome? (engine.partnerAt pins p)

variable {engine : TimingEngine} {pins : List PinId} {p q input : PinId}

/-- Of the arcs from an input, the first that the pin is an end of decides. -/
theorem partnerAt_eq_some (listed : input ∈ pins) (found : engine.partnerAt pins p input = some q) :
    ∃ before output after,
      engine.instanceArcs input .forward = before ++ output :: after ∧
      engine.ArcAmong pins input output ∧ (p = input ∧ q = output ∨ p = output ∧ q = input) ∧
      ∀ o ∈ before, engine.ArcAmong pins input o → p ≠ input ∧ p ≠ o := by
  obtain ⟨load, found⟩ := Option.ite_none_right_eq_some.mp found
  obtain ⟨before, output, after, split, found, passed⟩ := List.findSome?_eq_some_iff.mp found
  obtain ⟨inside, found⟩ := Option.ite_none_right_eq_some.mp found
  obtain ⟨differs, ends⟩ := otherEnd_eq_some_iff.mp found
  have arc : output ∈ engine.instanceArcs input .forward :=
    split ▸ List.mem_append_right _ List.mem_cons_self
  refine ⟨before, output, after, split, ⟨listed, inside, differs, load, arc⟩, ends, ?_⟩
  rintro o member ⟨_, inside', differs', _⟩
  have refused := passed o member
  rw [if_pos inside', otherEnd, if_neg differs'] at refused
  constructor
  · intro here
    rw [if_pos here] at refused
    cases refused
  · intro there
    rw [if_neg (there ▸ Ne.symm differs'), if_pos there] at refused
    cases refused

theorem isSome_partnerAt_iff (listed : input ∈ pins) :
    (engine.partnerAt pins p input).isSome = true ↔
      ∃ output, engine.ArcAmong pins input output ∧ (p = input ∨ p = output) := by
  constructor
  · intro found
    obtain ⟨q, found⟩ := Option.isSome_iff_exists.mp found
    obtain ⟨_, output, _, _, arc, ends, _⟩ := partnerAt_eq_some listed found
    exact ⟨output, arc, ends.imp And.left And.left⟩
  · rintro ⟨output, ⟨_, inside, differs, load, arc⟩, ends⟩
    unfold partnerAt
    rw [if_pos load, List.findSome?_isSome_iff]
    refine ⟨output, arc, ?_⟩
    rw [if_pos inside, Option.isSome_iff_exists]
    rcases ends with here | there
    · exact ⟨output, otherEnd_eq_some_iff.mpr ⟨differs, .inl ⟨here, rfl⟩⟩⟩
    · exact ⟨input, otherEnd_eq_some_iff.mpr ⟨differs, .inr ⟨there, rfl⟩⟩⟩

theorem mem_of_partnerAt (listed : input ∈ pins) (found : engine.partnerAt pins p input = some q) :
    q ∈ pins := by
  obtain ⟨_, output, _, _, ⟨_, inside, _⟩, ends, _⟩ := partnerAt_eq_some listed found
  rcases ends with ⟨_, rfl⟩ | ⟨_, rfl⟩
  · exact inside
  · exact listed

end TimingEngine

namespace ConeBuilder

open NodeArena NodesByDepth

variable {engine : TimingEngine} {pins : List PinId} {p q input : PinId} {x y id : NodeId}
  {a : NodeArena}

theorem getElem?_byPin (distinct : pins.Nodup) :
    (Std.TreeMap.ofList (NodesByDepth.empty.numbered pins))[p]? = some x ↔
      pins[x.raw]? = some p := by
  have keys : (NodesByDepth.empty.numbered pins).Pairwise fun e f => ¬ compare e.1 f.1 = .eq := by
    simp only [Std.compare_eq_iff_eq]
    rw [← List.pairwise_map (f := Prod.fst) (R := (· ≠ ·)), map_fst_numbered]
    exact distinct
  rw [← mem_numbered_empty]
  constructor
  · exact mem_of_getElem?_ofList
  · exact Std.TreeMap.getElem?_ofList_of_mem Std.ReflCmp.compare_self keys

section Renamed

variable (distinct : pins.Nodup)

include distinct

theorem isSome_byPin (inside : q ∈ pins) :
    ((Std.TreeMap.ofList (NodesByDepth.empty.numbered pins))[q]?).isSome = true := by
  obtain ⟨raw, place⟩ := List.mem_iff_getElem?.mp inside
  have found := (getElem?_byPin distinct).mpr
    (show pins[(⟨raw⟩ : NodeId).raw]? = some q from place)
  rw [found, Option.isSome_some]

/-- What a load offers to a node is what it offers to the pin of the node. -/
theorem offer_eq (here : pins[x.raw]? = some p) (listed : pins[id.raw]? = some input) :
    offer engine (.ofList (NodesByDepth.empty.numbered pins)) x (input, id) =
      (engine.partnerAt pins p input).bind fun q =>
        (Std.TreeMap.ofList (NodesByDepth.empty.numbered pins))[q]? := by
  have named {p x} := getElem?_byPin distinct (p := p) (x := x)
  have apart {p q x} (first : (Std.TreeMap.ofList (NodesByDepth.empty.numbered pins))[p]? = some x)
      (second : (Std.TreeMap.ofList (NodesByDepth.empty.numbered pins))[q]? = some x) : p = q :=
    Option.some.inj ((named.mp first).symm.trans (named.mp second))
  unfold offer TimingEngine.partnerAt
  split
  · refine findSome?_eq_bind (fun output _ => ?_) fun output _ q offered => ?_
    · by_cases inside : output ∈ pins
      · obtain ⟨target, there⟩ := Option.isSome_iff_exists.mp (isSome_byPin distinct inside)
        rw [if_pos inside, there, Option.bind_some]
        exact otherEnd_named apart (named.mpr listed) there (named.mpr here)
      · have absent : (Std.TreeMap.ofList (NodesByDepth.empty.numbered pins))[output]? = none := by
          rw [Option.eq_none_iff_forall_not_mem]
          intro target found
          exact inside (List.mem_of_getElem? (named.mp found))
        rw [if_neg inside, absent]
        rfl
    · obtain ⟨inside, offered⟩ := Option.ite_none_right_eq_some.mp offered
      apply isSome_byPin distinct
      rcases (otherEnd_eq_some_iff.mp offered).2 with ⟨_, rfl⟩ | ⟨_, rfl⟩
      · exact inside
      · exact List.mem_of_getElem? listed
  · rfl

/-- The node of a pin points at that of the pin's partner. -/
theorem counterpart?_numbered (known : ∀ p x, pins[x.raw]? = some p → a.contains x = true)
    (free : a.counterpart? x = none) (here : pins[x.raw]? = some p) :
    (linkConnectivity engine (NodesByDepth.empty.numbered pins) a).counterpart? x = some y ↔
      ∃ q, engine.partner? pins p = some q ∧ pins[y.raw]? = some q := by
  have stored : ∀ entry ∈ NodesByDepth.empty.numbered pins, a.contains entry.2 = true :=
    fun entry member => known entry.1 entry.2 (mem_numbered_empty.mp member)
  have first : (NodesByDepth.empty.numbered pins).findSome?
      (offer engine (.ofList (NodesByDepth.empty.numbered pins)) x) =
        (engine.partner? pins p).bind fun q =>
          (Std.TreeMap.ofList (NodesByDepth.empty.numbered pins))[q]? := by
    have renamed : engine.partner? pins p = (NodesByDepth.empty.numbered pins).findSome?
        (engine.partnerAt pins p ∘ Prod.fst) := by
      rw [← List.findSome?_map, map_fst_numbered]
      rfl
    rw [renamed]
    refine findSome?_eq_bind ?_ ?_
    · rintro ⟨input, id⟩ member
      exact offer_eq distinct here (mem_numbered_empty.mp member)
    · rintro ⟨input, id⟩ member q found
      have listed := List.mem_of_getElem? (mem_numbered_empty.mp member)
      exact isSome_byPin distinct (TimingEngine.mem_of_partnerAt listed found)
  rw [counterpart?_linkConnectivity stored, free, Option.none_or, first, Option.bind_eq_some_iff]
  simp only [getElem?_byPin distinct]

/-- The nodes of two pins are paired if one of them feeds the other. -/
theorem paired_numbered (known : ∀ p x, pins[x.raw]? = some p → a.contains x = true)
    (free : ¬ a.Linked .pair x y) :
    (linkConnectivity engine (NodesByDepth.empty.numbered pins) a).Linked .pair x y ↔
      ∃ p q, pins[x.raw]? = some p ∧ pins[y.raw]? = some q ∧
        (engine.Feeds p q ∨ engine.Feeds q p) := by
  have stored : ∀ entry ∈ NodesByDepth.empty.numbered pins, a.contains entry.2 = true :=
    fun entry member => known entry.1 entry.2 (mem_numbered_empty.mp member)
  have apart {p q : PinId} {x y : NodeId} (first : pins[x.raw]? = some p)
      (second : pins[y.raw]? = some q) : x ≠ y ↔ p ≠ q := by
    apply not_congr
    constructor
    · rintro rfl
      exact Option.some.inj (first.symm.trans second)
    · rintro rfl
      obtain ⟨raw⟩ := x
      exact congrArg Id.mk (place_unique distinct first second)
  rw [paired_linkConnectivity stored, or_iff_right free]
  simp only [Prod.exists, mem_numbered_empty, JoinedBy, getElem?_byPin distinct]
  constructor
  · rintro ⟨p, id, here, driver, net, attached, q, load, target, there, differs, ends⟩
    have feeds : engine.Feeds p q := ⟨(apart here there).mp differs, driver, net, attached, load⟩
    rcases ends with ⟨rfl, rfl⟩ | ⟨rfl, rfl⟩
    · exact ⟨p, q, here, there, .inl feeds⟩
    · exact ⟨q, p, there, here, .inr feeds⟩
  · rintro ⟨p, q, here, there, ⟨differs, driver, net, attached, load⟩ |
      ⟨differs, driver, net, attached, load⟩⟩
    · exact ⟨p, x, here, driver, net, attached, q, load, y, there, (apart here there).mpr differs,
        .inl ⟨rfl, rfl⟩⟩
    · exact ⟨q, y, there, driver, net, attached, p, load, x, here, (apart there here).mpr differs,
        .inr ⟨rfl, rfl⟩⟩

end Renamed

end ConeBuilder

end TimingExplorer
