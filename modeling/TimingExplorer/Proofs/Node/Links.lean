import TimingExplorer.Proofs.Node.Data

/-!
The links of a node arena as relations between ids. Linking two nodes adds one link and takes at
most one away, and a compaction carries over just the links between nodes that are kept.
-/
namespace TimingExplorer

/-- What a link stands for. A node may be paired with many others and has at most one counterpart.
-/
inductive LinkKind where
  | pair
  | counterpart

namespace PathNode

def LinksTo (n : PathNode) : LinkKind → NodeId → Prop
  | .pair, y => y ∈ n.paired
  | .counterpart, y => n.instanceNode = some y

/-- What decides with which nodes a node may be linked: its pin, and whether it is a sink. -/
def role (n : PathNode) : PinId × Bool := (n.pin, n.flags.isSink)

theorem not_linksTo_of_unlinked {n : PathNode} (blank : n.unlinked = n) (kind : LinkKind)
    (y : NodeId) : ¬ n.LinksTo kind y := by
  rw [← blank]
  cases kind with
  | pair => exact Std.TreeSet.not_mem_emptyc
  | counterpart => exact nofun

end PathNode

namespace NodeArena

variable {a b : NodeArena} {x y u v : NodeId} {kind : LinkKind} {keep : List NodeId}

/-- A node has a link of some kind to another one. -/
def Linked (a : NodeArena) (kind : LinkKind) (x y : NodeId) : Prop :=
  ∃ n, a.get? x = some n ∧ n.LinksTo kind y

def role (a : NodeArena) (id : NodeId) : Option (PinId × Bool) := (a.get? id).map PathNode.role

theorem role_eq (a : NodeArena) (id : NodeId) : a.role id = (a.data id).map PathNode.role := by
  rw [data, Option.map_map]
  rfl

theorem isSome_role (a : NodeArena) (id : NodeId) : (a.role id).isSome = a.contains id := by
  rw [role, Option.isSome_map, isSome_get?]

theorem eq_of_role {n : PathNode} {pin : PinId} {sink : Bool} (found : a.get? x = some n)
    (role : a.role x = some (pin, sink)) : n.pin = pin ∧ n.flags.isSink = sink := by
  rw [NodeArena.role, found] at role
  exact Prod.mk.inj (Option.some.inj role)

theorem linked_iff {n : PathNode} (found : a.get? x = some n) :
    a.Linked kind x y ↔ n.LinksTo kind y := by
  simp [Linked, found]

theorem contains_of_linked (linked : a.Linked kind x y) : a.contains x = true := by
  obtain ⟨n, found, _⟩ := linked
  rw [← isSome_get?, found]
  rfl

theorem get?_modify (a : NodeArena) (x u : NodeId) (f : PathNode → PathNode) :
    (a.modify x f).get? u = if x = u then (a.get? u).map f else a.get? u :=
  Arena.get?_modify a.nodes x u f

theorem contains_modify (a : NodeArena) (x u : NodeId) (f : PathNode → PathNode) :
    (a.modify x f).contains u = a.contains u := by
  rw [← isSome_get?, get?_modify, ← isSome_get?]
  split
  · rw [Option.isSome_map]
  · rfl

/-- A change that keeps the links of all nodes. -/
theorem linked_modify {f : PathNode → PathNode}
    (keeps : ∀ n y, (f n).LinksTo kind y ↔ n.LinksTo kind y) :
    (a.modify x f).Linked kind u v ↔ a.Linked kind u v := by
  simp only [Linked, get?_modify]
  split
  · cases a.get? u with
    | none => simp
    | some n => simp [keeps]
  · rfl

theorem role_modify {f : PathNode → PathNode} (keeps : ∀ n, (f n).role = n.role) :
    (a.modify x f).role u = a.role u := by
  rw [role, get?_modify, role]
  split
  · rw [Option.map_map]
    exact congrArg (Option.map · (a.get? u)) (funext keeps)
  · rfl

theorem linked_insert_paired (a : NodeArena) (x y u v : NodeId) :
    (a.modify x fun n => { n with paired := n.paired.insert y }).Linked .pair u v ↔
      a.Linked .pair u v ∨ a.contains x = true ∧ u = x ∧ v = y := by
  simp only [Linked, get?_modify, ← isSome_get?]
  by_cases here : x = u
  · subst here
    cases a.get? x with
    | none => simp
    | some n => simp [PathNode.LinksTo, Std.TreeSet.mem_insert, or_comm, @eq_comm _ v]
  · simp [here, Ne.symm here]

theorem linked_pair (a : NodeArena) (x y u v : NodeId) : (a.pair x y).2.Linked .pair u v ↔
    a.Linked .pair u v ∨ a.linkable x y = true ∧ (u = x ∧ v = y ∨ u = y ∧ v = x) := by
  unfold pair
  split
  · next linkable =>
    simp only [linkable, true_and]
    simp only [NodeArena.linkable, Bool.and_eq_true] at linkable
    obtain ⟨⟨_, first⟩, second⟩ := linkable
    simp only [linked_insert_paired, contains_modify, first, second, true_and, or_assoc]
  · next refused => simp [refused]

theorem counterpart_pair (a : NodeArena) (x y u v : NodeId) :
    (a.pair x y).2.Linked .counterpart u v ↔ a.Linked .counterpart u v := by
  unfold pair
  split
  · rw [linked_modify, linked_modify]
    all_goals
      intro n y
      rfl
  · rfl

theorem linked_setInstanceNode (a : NodeArena) (x y u v : NodeId) :
    (a.setInstanceNode x y).2.Linked .counterpart u v ↔
      if a.linkable x y = true ∧ u = x then v = y else a.Linked .counterpart u v := by
  unfold setInstanceNode
  split
  · next linkable =>
    have known : a.contains x = true := by
      simp only [NodeArena.linkable, Bool.and_eq_true] at linkable
      exact linkable.1.2
    rw [← isSome_get?, Option.isSome_iff_exists] at known
    obtain ⟨n, found⟩ := known
    simp only [linkable, true_and, Linked, get?_modify]
    by_cases here : x = u
    · subst here
      simp [found, PathNode.LinksTo, eq_comm]
    · simp [here, Ne.symm here]
  · next refused => simp [refused]

theorem pair_setInstanceNode (a : NodeArena) (x y u v : NodeId) :
    (a.setInstanceNode x y).2.Linked .pair u v ↔ a.Linked .pair u v := by
  unfold setInstanceNode
  split
  · rw [linked_modify]
    intro n y
    rfl
  · rfl

theorem contains_pair (a : NodeArena) (x y u : NodeId) :
    (a.pair x y).2.contains u = a.contains u := by
  rw [← isSome_data, data_pair, isSome_data]

/-- The node that a node points at. -/
def counterpart? (a : NodeArena) (x : NodeId) : Option NodeId := (a.get? x).bind (·.instanceNode)

theorem linked_counterpart_iff : a.Linked .counterpart x y ↔ a.counterpart? x = some y :=
  Option.bind_eq_some_iff.symm

theorem counterpart?_pair (a : NodeArena) (x y u : NodeId) :
    (a.pair x y).2.counterpart? u = a.counterpart? u := by
  refine Option.ext fun v => ?_
  rw [← linked_counterpart_iff, counterpart_pair, linked_counterpart_iff]

theorem counterpart?_setInstanceNode (linkable : a.linkable x y = true) :
    (a.setInstanceNode x y).2.counterpart? u = if u = x then some y else a.counterpart? u := by
  refine Option.ext fun v => ?_
  rw [← linked_counterpart_iff, linked_setInstanceNode, linked_counterpart_iff]
  by_cases here : u = x
  · simp [linkable, here, eq_comm]
  · simp [here]

/-! Links after any number of steps. -/

section Steps

variable {α : Type} {items : List α} {f : NodeArena → α → NodeArena}

theorem paired_foldl (inv : NodeArena → Prop) {joins : α → Prop}
    (step : ∀ a, inv a → ∀ item ∈ items,
      inv (f a item) ∧ ((f a item).Linked .pair u v ↔ a.Linked .pair u v ∨ joins item))
    (start : inv a) :
    (items.foldl f a).Linked .pair u v ↔ a.Linked .pair u v ∨ ∃ item ∈ items, joins item := by
  induction items generalizing a with
  | nil => simp
  | cons first rest ih =>
    obtain ⟨kept, links⟩ := step a start first List.mem_cons_self
    rw [List.foldl_cons, ih (fun a held item member =>
      step a held item (List.mem_cons_of_mem _ member)) kept, links]
    simp only [List.mem_cons, exists_eq_or_imp, or_assoc]

/-- Where a counterpart is never replaced, the first that is offered stays. -/
theorem counterpart?_foldl (inv : NodeArena → Prop) {offer : α → Option NodeId}
    (step : ∀ a, inv a → ∀ item ∈ items,
      inv (f a item) ∧ (f a item).counterpart? u = (a.counterpart? u).or (offer item))
    (start : inv a) :
    (items.foldl f a).counterpart? u = (a.counterpart? u).or (items.findSome? offer) := by
  induction items generalizing a with
  | nil => simp
  | cons first rest ih =>
    obtain ⟨kept, links⟩ := step a start first List.mem_cons_self
    rw [List.foldl_cons, ih (fun a held item member =>
      step a held item (List.mem_cons_of_mem _ member)) kept, links, Option.or_assoc]
    cases here : offer first <;> simp [here]

end Steps

/-! Linking some nodes with each other. -/

/-- One arena comes from another by linking nodes of a set with each other. -/
structure LinksWithin (inside : NodeId → Prop) (a b : NodeArena) : Prop where
  data : b.data = a.data
  outside : ∀ {x}, ¬ inside x → b.get? x = a.get? x
  linked : ∀ {kind x y}, b.Linked kind x y → a.Linked kind x y ∨ inside x ∧ inside y

section LinksWithin

variable {inside : NodeId → Prop} {c : NodeArena}

theorem LinksWithin.refl (inside : NodeId → Prop) (a : NodeArena) : LinksWithin inside a a :=
  ⟨rfl, fun _ => rfl, .inl⟩

theorem LinksWithin.contains (links : LinksWithin inside a b) :
    b.contains x = a.contains x := by
  rw [← isSome_data, links.data, isSome_data]

theorem LinksWithin.trans (first : LinksWithin inside a b) (second : LinksWithin inside b c) :
    LinksWithin inside a c where
  data := second.data.trans first.data
  outside out := (second.outside out).trans (first.outside out)
  linked link := (second.linked link).elim first.linked .inr

theorem LinksWithin.foldl {α : Type} {f : NodeArena → α → NodeArena} {items : List α}
    (step : ∀ a, ∀ item ∈ items, LinksWithin inside a (f a item)) (a : NodeArena) :
    LinksWithin inside a (items.foldl f a) := by
  induction items generalizing a with
  | nil => exact .refl inside a
  | cons first rest ih =>
    exact (step a first List.mem_cons_self).trans
      (ih (fun a item member => step a item (List.mem_cons_of_mem _ member)) _)

theorem linksWithin_pair (a : NodeArena) (first : inside x) (second : inside y) :
    LinksWithin inside a (a.pair x y).2 where
  data := data_pair
  outside {u} out := by
    have away : x ≠ u := fun same => out (same ▸ first)
    have away' : y ≠ u := fun same => out (same ▸ second)
    unfold pair
    split
    · simp only [get?_modify, if_neg away, if_neg away']
    · rfl
  linked {kind u v} link := by
    cases kind with
    | pair =>
      rcases (linked_pair a x y u v).mp link with old | ⟨_, ⟨rfl, rfl⟩ | ⟨rfl, rfl⟩⟩
      · exact .inl old
      · exact .inr ⟨first, second⟩
      · exact .inr ⟨second, first⟩
    | counterpart => exact .inl ((counterpart_pair a x y u v).mp link)

theorem linksWithin_setInstanceNode (a : NodeArena) (first : inside x) (second : inside y) :
    LinksWithin inside a (a.setInstanceNode x y).2 where
  data := data_setInstanceNode
  outside {u} out := by
    have away : x ≠ u := fun same => out (same ▸ first)
    unfold setInstanceNode
    split
    · simp only [get?_modify, if_neg away]
    · rfl
  linked {kind u v} link := by
    cases kind with
    | pair => exact .inl ((pair_setInstanceNode a x y u v).mp link)
    | counterpart =>
      rw [linked_setInstanceNode] at link
      split at link
      · next made =>
        obtain ⟨_, rfl⟩ := made
        exact .inr ⟨first, link ▸ second⟩
      · exact .inl link

end LinksWithin

/-! New nodes come without links. -/

theorem mem_ids_allocAll {fresh : List PathNode} : x ∈ (a.allocAll fresh).1 ↔
    a.contains x = false ∧ (a.allocAll fresh).2.contains x = true := by
  obtain ⟨raw⟩ := x
  rw [← Bool.not_eq_true, contains_iff, contains_iff, ids_allocAll, size_eq_length (a.allocAll _).2,
    toList_allocAll, List.length_append, ← size_eq_length, List.mem_map]
  simp only [List.mem_range'_1, Id.mk.injEq, exists_eq_right, Nat.not_lt]

theorem nodup_ids_allocAll (a : NodeArena) (fresh : List PathNode) :
    (a.allocAll fresh).1.Nodup := by
  have places := List.nodup_range' (s := a.size) (n := fresh.length)
  rw [ids_allocAll, List.Nodup, List.pairwise_map]
  exact places.imp fun differs same => differs (Id.mk.inj same)

theorem role_allocAll (fresh : List PathNode) (known : a.contains x = true) :
    (a.allocAll fresh).2.role x = a.role x := by
  rw [role, get?_allocAll fresh known, role]

theorem linked_allocAll {fresh : List PathNode} (blank : ∀ n ∈ fresh, n.unlinked = n) :
    (a.allocAll fresh).2.Linked kind x y ↔ a.Linked kind x y := by
  obtain ⟨raw⟩ := x
  simp only [Linked, get?_eq, toList_allocAll]
  by_cases old : raw < a.nodes.toList.length
  · rw [List.getElem?_append_left old]
  · have unknown : a.nodes.toList[raw]? = none := List.getElem?_eq_none (Nat.le_of_not_lt old)
    rw [List.getElem?_append_right (Nat.le_of_not_lt old), unknown]
    constructor
    · rintro ⟨n, found, linked⟩
      have unlinked := blank n (List.mem_of_getElem? found)
      exact absurd linked (PathNode.not_linksTo_of_unlinked unlinked _ _)
    · rintro ⟨n, found, _⟩
      cases found

/-! A compaction renames the nodes it keeps. -/

/-- One arena holds the nodes of another that have a new id, with the links between them. -/
structure Renames (a b : NodeArena) (newId? : NodeId → Option NodeId) : Prop where
  injective : ∀ {x y z}, newId? x = some z → newId? y = some z → x = y
  role : ∀ {x z}, newId? x = some z → b.role z = a.role x
  linked : ∀ {kind u v}, b.Linked kind u v ↔
    ∃ x y, newId? x = some u ∧ newId? y = some v ∧ a.Linked kind x y

theorem linksTo_relink (newId? : NodeId → Option NodeId) (n : PathNode) (kind : LinkKind)
    (v : NodeId) :
    (relink newId? n).LinksTo kind v ↔ ∃ y, newId? y = some v ∧ n.LinksTo kind y := by
  cases kind with
  | pair =>
    simp only [PathNode.LinksTo, relink, Std.TreeSet.mem_ofList, List.contains_iff_mem,
      List.mem_filterMap, Std.TreeSet.mem_toList]
    exact exists_congr fun _ => and_comm
  | counterpart =>
    simp only [PathNode.LinksTo, relink, Option.bind_eq_some_iff]
    exact exists_congr fun _ => and_comm

theorem newId?_eq_some_iff (distinct : keep.Nodup) :
    a.newId? keep x = some u ↔ (keep.filter a.contains)[u.raw]? = some x := by
  obtain ⟨raw⟩ := u
  have member {old : NodeId} {new : Nat} :
      (old, ⟨new⟩) ∈ a.renumbering keep ↔ (keep.filter a.contains)[new]? = some old := by
    simp [renumbering, List.mem_zipIdx_iff_getElem?]
  have olds : (a.renumbering keep).map Prod.fst = keep.filter a.contains := by
    simp [renumbering, Function.comp_def]
  have keys : (a.renumbering keep).Pairwise fun e f => ¬ compare e.1 f.1 = .eq := by
    simp only [Std.compare_eq_iff_eq]
    rw [← List.pairwise_map (f := Prod.fst) (R := (· ≠ ·)), olds]
    exact distinct.filter _
  constructor
  · intro found
    by_cases kept : x ∈ keep.filter a.contains
    · obtain ⟨new, place⟩ := List.mem_iff_getElem?.mp kept
      have same :=
        Std.TreeMap.getElem?_ofList_of_mem (Std.ReflCmp.compare_self) keys (member.mpr place)
      obtain rfl := Id.mk.inj (Option.some.inj (found.symm.trans same))
      exact place
    · have none : a.newId? keep x = none := by
        refine Std.TreeMap.getElem?_ofList_of_contains_eq_false ?_
        rw [olds]
        simpa using kept
      rw [none] at found
      cases found
  · intro place
    exact Std.TreeMap.getElem?_ofList_of_mem Std.ReflCmp.compare_self keys (member.mpr place)

theorem get?_compact (a : NodeArena) (keep : List NodeId) (u : NodeId) :
    (a.compact keep).2.get? u = ((keep.filter a.contains)[u.raw]?).bind fun old =>
      (a.get? old).map (relink (a.newId? keep)) := by
  obtain ⟨raw⟩ := u
  have nodes := congrArg (·[raw]?) (kept_nodes a keep)
  simp only [List.getElem?_map] at nodes
  rw [get?_eq, toList_compact, List.getElem?_map]
  cases place : (keep.filter a.contains)[raw]? with
  | none =>
    rw [place, Option.map_none, Option.map_eq_none_iff] at nodes
    rw [nodes]
    rfl
  | some old =>
    rw [place, Option.map_some, Option.map_eq_some_iff] at nodes
    obtain ⟨n, found, known⟩ := nodes
    rw [found, Option.bind_some, ← known]

theorem renames_compact (distinct : keep.Nodup) :
    Renames a (a.compact keep).2 (a.newId? keep) where
  injective first second := by
    rw [newId?_eq_some_iff distinct] at first second
    exact Option.some.inj (first.symm.trans second)
  role renamed := by
    rw [newId?_eq_some_iff distinct] at renamed
    rw [role, get?_compact, renamed, Option.bind_some, Option.map_map]
    rfl
  linked {kind u v} := by
    simp only [newId?_eq_some_iff distinct (u := u), Linked, get?_compact, Option.bind_eq_some_iff,
      Option.map_eq_some_iff]
    constructor
    · rintro ⟨_, ⟨x, place, n, found, rfl⟩, linked⟩
      obtain ⟨y, renamed, old⟩ := (linksTo_relink ..).mp linked
      exact ⟨x, y, place, renamed, n, found, old⟩
    · rintro ⟨x, y, place, renamed, n, found, old⟩
      exact ⟨_, ⟨x, place, n, found, rfl⟩, (linksTo_relink ..).mpr ⟨y, renamed, old⟩⟩

theorem map_newId?_compact (distinct : keep.Nodup) :
    (keep.filter a.contains).map (a.newId? keep) = (a.compact keep).1.map some := by
  rw [ids_compact]
  refine List.ext_getElem (by simp) fun i inside _ => ?_
  rw [List.length_map] at inside
  simp only [List.getElem_map, List.getElem_range]
  exact (newId?_eq_some_iff distinct).mpr (List.getElem?_eq_getElem inside)

end NodeArena

end TimingExplorer
