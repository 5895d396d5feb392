import TimingExplorer.Proofs.Node.Links

/-!
Sequences of nodes whose counterparts are matched: they are mutual, and a sink is matched with the
source right behind it. As no node is both, a node has only one neighbour that it may be matched
with, and so linking two neighbours takes no counterpart away from a third node.
-/
namespace TimingExplorer

namespace NodeArena

variable {a b : NodeArena} {ids ids' : List NodeId} {x y z : NodeId}

/-- Two nodes stand next to each other in a sequence, first a sink and then a source. -/
def Leads (a : NodeArena) (ids : List NodeId) (x y : NodeId) : Prop :=
  ∃ (i : Nat) (p q : PinId), ids[i]? = some x ∧ ids[i + 1]? = some y ∧
    a.role x = some (p, true) ∧ a.role y = some (q, false)

/-- The counterparts of the nodes in a sequence are mutual and stand next to each other. -/
def Matched (a : NodeArena) (ids : List NodeId) : Prop :=
  ∀ x ∈ ids, ∀ y, a.Linked .counterpart x y →
    a.Linked .counterpart y x ∧ (a.Leads ids x y ∨ a.Leads ids y x)

theorem Leads.mem_left (leads : a.Leads ids x y) : x ∈ ids := by
  obtain ⟨i, _, _, place, _⟩ := leads
  exact List.mem_of_getElem? place

theorem Leads.mem_right (leads : a.Leads ids x y) : y ∈ ids := by
  obtain ⟨i, _, _, _, place, _⟩ := leads
  exact List.mem_of_getElem? place

theorem Leads.right_unique (distinct : ids.Nodup) (first : a.Leads ids x y)
    (second : a.Leads ids x z) : y = z := by
  obtain ⟨i, _, _, here, next, _⟩ := first
  obtain ⟨j, _, _, here', next', _⟩ := second
  obtain rfl := place_unique distinct here here'
  exact Option.some.inj (next.symm.trans next')

theorem Leads.left_unique (distinct : ids.Nodup) (first : a.Leads ids x z)
    (second : a.Leads ids y z) : x = y := by
  obtain ⟨i, _, _, here, next, _⟩ := first
  obtain ⟨j, _, _, here', next', _⟩ := second
  obtain rfl := Nat.succ.inj (place_unique distinct next next')
  exact Option.some.inj (here.symm.trans here')

/-- No node is led to and leads on, as it is a source or a sink. -/
theorem Leads.not_chained (first : a.Leads ids x y) : ¬ a.Leads ids y z := by
  rintro ⟨_, _, _, _, _, sink, _⟩
  obtain ⟨_, _, _, _, _, _, source⟩ := first
  rw [sink] at source
  cases source

theorem Leads.linkable (leads : a.Leads ids x y) : a.linkable x y = true := by
  obtain ⟨_, _, _, _, _, sink, source⟩ := leads
  have differs : x ≠ y := by
    rintro rfl
    rw [sink] at source
    cases source
  have known : a.contains x = true := by rw [← isSome_role, sink]; rfl
  have known' : a.contains y = true := by rw [← isSome_role, source]; rfl
  simp [NodeArena.linkable, differs, known, known']

theorem linkable_comm (a : NodeArena) (x y : NodeId) : a.linkable x y = a.linkable y x := by
  rw [NodeArena.linkable, NodeArena.linkable, Bool.and_right_comm]
  simp only [ne_eq, eq_comm]

theorem Leads.of_role (roles : ∀ z ∈ ids, b.role z = a.role z) (leads : a.Leads ids x y) :
    b.Leads ids x y := by
  have here := roles x leads.mem_left
  have next := roles y leads.mem_right
  obtain ⟨i, p, q, place, place', sink, source⟩ := leads
  exact ⟨i, p, q, place, place', here.trans sink, next.trans source⟩

/-- Whether a sequence is matched depends only on its own nodes. -/
theorem Matched.of_same (matched : a.Matched ids) (roles : ∀ z ∈ ids, b.role z = a.role z)
    (links : ∀ x ∈ ids, ∀ y, b.Linked .counterpart x y ↔ a.Linked .counterpart x y) :
    b.Matched ids := by
  intro x member y linked
  obtain ⟨back, leads | leads⟩ := matched x member y ((links x member y).mp linked)
  · exact ⟨(links y leads.mem_right x).mpr back, .inl (leads.of_role roles)⟩
  · exact ⟨(links y leads.mem_left x).mpr back, .inr (leads.of_role roles)⟩

/-- Linking a sink with the source behind it. Neither can have had another counterpart. -/
theorem Matched.link (matched : a.Matched ids) (distinct : ids.Nodup) (leads : a.Leads ids x y) :
    ((a.setInstanceNode x y).2.setInstanceNode y x).2.Matched ids := by
  let first := (a.setInstanceNode x y).2
  have roles (w : NodeId) : (first.setInstanceNode y x).2.role w = a.role w := by
    rw [role_eq, data_setInstanceNode, data_setInstanceNode, ← role_eq]
  have contains (w : NodeId) : first.contains w = a.contains w := by
    rw [← isSome_data, data_setInstanceNode, isSome_data]
  have linkable' : first.linkable y x = true := by
    rw [linkable_comm, ← leads.linkable, NodeArena.linkable, contains, contains]
    rfl
  have differs : x ≠ y := by
    rintro rfl
    exact leads.not_chained leads
  have linked (u v : NodeId) : (first.setInstanceNode y x).2.Linked .counterpart u v ↔
      if u = y then v = x else if u = x then v = y else a.Linked .counterpart u v := by
    simp only [first, linked_setInstanceNode, linkable', leads.linkable, true_and]
  have leads' : (first.setInstanceNode y x).2.Leads ids x y := leads.of_role fun w _ => roles w
  intro u member v link
  rw [linked] at link
  rw [linked]
  by_cases right : u = y
  · rw [if_pos right] at link
    subst right link
    exact ⟨by simp [differs], .inr leads'⟩
  · rw [if_neg right] at link
    by_cases left : u = x
    · rw [if_pos left] at link
      subst left link
      exact ⟨by simp, .inl leads'⟩
    · rw [if_neg left] at link
      obtain ⟨back, either⟩ := matched u member v link
      have elsewhere : v ≠ y := by
        rintro rfl
        rcases either with towards | away
        · exact left (towards.left_unique distinct leads)
        · exact leads.not_chained away
      have elsewhere' : v ≠ x := by
        rintro rfl
        rcases either with towards | away
        · exact towards.not_chained leads
        · exact right (away.right_unique distinct leads)
      rw [if_neg elsewhere, if_neg elsewhere']
      exact ⟨back, either.imp (·.of_role fun w _ => roles w) (·.of_role fun w _ => roles w)⟩

/-- Renamed nodes are matched as before. -/
theorem Matched.renamed {newId? : NodeId → Option NodeId} (renames : Renames a b newId?)
    (matched : a.Matched ids) (moved : ids.map newId? = ids'.map some) : b.Matched ids' := by
  have place {i : Nat} {x} (found : ids[i]? = some x) :
      ∃ u, ids'[i]? = some u ∧ newId? x = some u := by
    have same : (ids.map newId?)[i]? = (ids'.map some)[i]? := by rw [moved]
    simp only [List.getElem?_map, found, Option.map_some] at same
    obtain ⟨u, found', named⟩ := Option.map_eq_some_iff.mp same.symm
    exact ⟨u, found', named.symm⟩
  have leads {x y u v} (first : newId? x = some u) (second : newId? y = some v)
      (leads : a.Leads ids x y) : b.Leads ids' u v := by
    obtain ⟨i, p, q, here, next, sink, source⟩ := leads
    obtain ⟨_, here', named⟩ := place here
    obtain rfl := Option.some.inj (named.symm.trans first)
    obtain ⟨_, next', named'⟩ := place next
    obtain rfl := Option.some.inj (named'.symm.trans second)
    exact ⟨i, p, q, here', next', (renames.role first).trans sink,
      (renames.role second).trans source⟩
  intro u member v linked
  obtain ⟨x, y, first, second, old⟩ := renames.linked.mp linked
  have listed : x ∈ ids := by
    have image : some u ∈ ids.map newId? := moved ▸ List.mem_map_of_mem member
    obtain ⟨w, listed, named⟩ := List.mem_map.mp image
    exact renames.injective first named ▸ listed
  obtain ⟨back, either⟩ := matched x listed y old
  exact ⟨renames.linked.mpr ⟨y, x, second, first, back⟩,
    either.imp (leads first second) (leads second first)⟩

end NodeArena

end TimingExplorer
