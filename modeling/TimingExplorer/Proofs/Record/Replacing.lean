import TimingExplorer.Proofs.Query.Failures
import TimingExplorer.Proofs.Query.Records
import TimingExplorer.Proofs.Record.ClockEnds

/-!
What populating one side does to a record. A walk that fails leaves all of the record as it was,
also where the record is kept and changed step by step. One that succeeds replaces the nodes of its
side, and the other side keeps its own but for their pairs, which led to nodes that are gone.
-/
namespace TimingExplorer

namespace PathRecord

open NodeArena

variable {r r' : PathRecord} {side : Side} {db : DesignDatabase} {fresh : List PathNode}
  {ids ids' : List NodeId} {newId? : NodeId → Option NodeId} {u x y : NodeId} {i j : Nat}

/-! ## Counterparts by their places -/

theorem getElem?_sideNodes (whole : r.Partitioned) (side : Side) (i : Nat) :
    (r.sideNodes side)[i]? = (r.ids side)[i]?.bind r.nodes.get? := by
  have place := congrArg (·[i]?) (whole.map_get? side)
  simp only [List.getElem?_map] at place
  cases listed : (r.ids side)[i]? with
  | none =>
    rw [listed, Option.map_none, eq_comm, Option.map_eq_none_iff] at place
    exact place
  | some x =>
    rw [listed, Option.map_some, eq_comm, Option.map_eq_some_iff] at place
    obtain ⟨n, here, found⟩ := place
    rw [here, found]
    rfl

/-- Where on its side the counterpart of each node stands. -/
def counterparts (r : PathRecord) (side : Side) : List (Option Nat) :=
  (r.sideNodes side).map fun n => n.instanceNode.map (r.ids side).idxOf

theorem length_counterparts (whole : r.Partitioned) (side : Side) :
    (r.counterparts side).length = (r.ids side).length := by
  have length := congrArg List.length (whole.map_get? side)
  rw [List.length_map, List.length_map] at length
  rw [counterparts, List.length_map, length]

theorem WellLinked.nodup_ids (linked : r.WellLinked) (side : Side) : (r.ids side).Nodup := by
  have nodup := linked.whole.nodup
  cases side with
  | launch => exact (List.nodup_append.mp nodup).1
  | capture => exact (List.nodup_append.mp nodup).2.1

theorem getElem?_counterparts (linked : r.WellLinked) :
    (r.counterparts side)[i]? = some (some j) ↔ ∃ x y, (r.ids side)[i]? = some x ∧
      (r.ids side)[j]? = some y ∧ r.nodes.Linked .counterpart x y := by
  rw [counterparts, List.getElem?_map, getElem?_sideNodes linked.whole]
  constructor
  · intro placed
    obtain ⟨n, found, placed⟩ := Option.map_eq_some_iff.mp placed
    obtain ⟨x, listed, found⟩ := Option.bind_eq_some_iff.mp found
    obtain ⟨y, points, rfl⟩ := Option.map_eq_some_iff.mp placed
    obtain ⟨_, leads⟩ := linked.matched side x (List.mem_of_getElem? listed) y ⟨n, found, points⟩
    have member : y ∈ r.ids side := leads.elim (·.mem_right) (·.mem_left)
    exact ⟨x, y, listed, List.getElem?_idxOf member, n, found, points⟩
  · rintro ⟨x, y, listed, listed', n, found, points⟩
    have place : (r.ids side).idxOf y = j := place_unique (linked.nodup_ids side)
      (List.getElem?_idxOf (List.mem_of_getElem? listed')) listed'
    rw [listed, Option.bind_some, found, Option.map_some, show n.instanceNode = some y from points,
      Option.map_some, place]

theorem getElem?_of_renamed (moved : ids.map newId? = ids'.map some) :
    ids'[i]? = some u ↔ ∃ x, ids[i]? = some x ∧ newId? x = some u := by
  have place : (ids[i]?).map newId? = (ids'[i]?).map some := by
    rw [← List.getElem?_map, moved, List.getElem?_map]
  cases listed : ids[i]? with
  | none =>
    rw [listed, Option.map_none, eq_comm, Option.map_eq_none_iff] at place
    simp [place]
  | some x =>
    rw [listed, Option.map_some, eq_comm, Option.map_eq_some_iff] at place
    obtain ⟨v, here, named⟩ := place
    simp [here, ← named]

theorem counterpart_withFresh (whole : r.Partitioned) (blank : ∀ n ∈ fresh, n.unlinked = n)
    (member : x ∈ r.ids side) : (r.withFresh db fresh).nodes.Linked .counterpart x y ↔
      r.nodes.Linked .counterpart x y := by
  have old : x ∉ (r.nodes.allocAll fresh).1 := by
    simp [mem_ids_allocAll, whole.contains member]
  rw [withFresh, counterpart_linkInstances old, linked_allocAll blank]

/-- A counterpart keeps its place when the other side is replaced. -/
theorem counterparts_installSide (linked : r.WellLinked) (db : DesignDatabase) (side : Side)
    (blank : ∀ n ∈ fresh, n.unlinked = n) :
    (r.installSide db side fresh).counterparts side.other = r.counterparts side.other := by
  obtain ⟨renames, kept, _⟩ := renames_installSide linked.whole db side fresh
  have after := linked.installSide db side blank
  have places (i j : Nat) :
      ((r.installSide db side fresh).counterparts side.other)[i]? = some (some j) ↔
        (r.counterparts side.other)[i]? = some (some j) := by
    simp only [getElem?_counterparts after, getElem?_counterparts linked,
      getElem?_of_renamed kept, renames.linked]
    constructor
    · rintro ⟨u, v, ⟨x, listed, named⟩, ⟨y, listed', named'⟩, x', y', old, old', link⟩
      obtain rfl := renames.injective named old
      obtain rfl := renames.injective named' old'
      have member := List.mem_of_getElem? listed
      exact ⟨x, y, listed, listed', (counterpart_withFresh linked.whole blank member).mp link⟩
    · rintro ⟨x, y, listed, listed', link⟩
      have named {k : Nat} {z : NodeId} (listed : (r.ids side.other)[k]? = some z) :
          ∃ w, (r.withFresh db fresh).nodes.newId?
            (r.ids side.other ++ (r.nodes.allocAll fresh).1) z = some w := by
        have image := List.mem_map_of_mem (f := (r.withFresh db fresh).nodes.newId?
          (r.ids side.other ++ (r.nodes.allocAll fresh).1)) (List.mem_of_getElem? listed)
        rw [kept] at image
        obtain ⟨w, _, same⟩ := List.mem_map.mp image
        exact ⟨w, same.symm⟩
      obtain ⟨u, first⟩ := named listed
      obtain ⟨v, second⟩ := named listed'
      have member := List.mem_of_getElem? listed
      exact ⟨u, v, ⟨x, listed, first⟩, ⟨y, listed', second⟩, x, y, first, second,
        (counterpart_withFresh linked.whole blank member).mpr link⟩
  have length : ((r.installSide db side fresh).counterparts side.other).length =
      (r.counterparts side.other).length := by
    rw [length_counterparts after.whole, length_counterparts linked.whole]
    have count := congrArg List.length kept
    rw [List.length_map, List.length_map] at count
    exact count.symm
  refine List.ext_getElem length fun i inside inside' => Option.ext fun j => ?_
  have place := places i j
  rw [List.getElem?_eq_getElem inside, List.getElem?_eq_getElem inside'] at place
  simpa using place

/-! ## The arena -/

theorem isEmpty_paired_installSide (linked : r.WellLinked) (db : DesignDatabase) (side : Side)
    (blank : ∀ n ∈ fresh, n.unlinked = n) {n : PathNode}
    (found : (r.installSide db side fresh).nodes.get? x = some n) : n.paired.isEmpty = true := by
  rw [Std.TreeSet.isEmpty_iff_forall_not_mem]
  intro y member
  exact not_paired_installSide linked db side blank x y ⟨n, found, member⟩

/-- The arena holds the nodes of the side that is kept and then those of the new side. -/
theorem toList_installSide (r : PathRecord) (db : DesignDatabase) (side : Side)
    (fresh : List PathNode) : (r.installSide db side fresh).nodes.nodes.toList =
      (r.installSide db side fresh).sideNodes side.other ++
        (r.installSide db side fresh).sideNodes side := by
  have whole : (r.installSide db side fresh).Partitioned := .installSide r db side fresh
  have ids : (r.installSide db side fresh).ids side.other ++
      (r.installSide db side fresh).ids side = (r.installSide db side fresh).nodes.nodes.ids :=
    ids_append_replaceSide (r.withFresh db fresh) side (r.nodes.allocAll fresh).1
  generalize r.installSide db side fresh = after at whole ids
  refine List.map_injective_iff.mpr (fun _ _ => Option.some.inj) ?_
  calc after.nodes.nodes.toList.map some
    _ = after.nodes.nodes.ids.map after.nodes.get? := by
      rw [Arena.ids, List.map_map, ← map_getElem?_range]
      exact List.map_congr_left fun i _ => (get?_eq after.nodes i).symm
    _ = (after.ids side.other ++ after.ids side).map after.nodes.get? := by rw [ids]
    _ = (after.sideNodes side.other ++ after.sideNodes side).map some := by
      rw [List.map_append, whole.map_get?, whole.map_get?, List.map_append]

/-- What a record holds after one of its sides was populated. -/
structure Replaces (r : PathRecord) (ctx : Context) (path : PathId) (offset : Double)
    (clockExpanded : Bool) (side : Side) (r' : PathRecord) : Prop where
  /-- The side shows the walk. -/
  shown : ShowsPath ctx path clockExpanded (side.shift offset) 0 (r'.sideNodes side)
  /-- Apart from links the other side has the nodes that it had, in order. -/
  kept : (r'.sideNodes side.other).map PathNode.unlinked =
    (r.sideNodes side.other).map PathNode.unlinked
  counterparts : r'.counterparts side.other = r.counterparts side.other
  unpaired : ∀ at', ∀ n ∈ r'.sideNodes at', n.paired.isEmpty = true
  /-- There are no other nodes, so none of those that the side had before. -/
  arena : r'.nodes.nodes.toList = r'.sideNodes side.other ++ r'.sideNodes side
  summary : r'.summary = r.summary
  clockEnds : ∀ at', r'.clockEnd at' = r.clockEnd at'

variable {ctx : Context} {path : PathId} {offset : Double} {clockExpanded : Bool}

theorem map_unlinked_sideNodes (whole : r.Partitioned) (side : Side) :
    ((r.sideNodes side).map PathNode.unlinked).map some = r.sideData side := by
  have nodes := congrArg (List.map (Option.map PathNode.unlinked)) (whole.map_get? side)
  rw [List.map_map, List.map_map] at nodes
  rw [sideData, List.map_map]
  exact nodes.symm

theorem replaces_of_populate (linked : r.WellLinked)
    (done : r.populate ctx path offset clockExpanded side = .ok r') :
    r.Replaces ctx path offset clockExpanded side r' := by
  have installed := populate_eq .. ▸ done
  obtain ⟨_, summary, others, stages, _, found, _⟩ := populate_eq_ok linked.whole installed
  have shown := shows_of_populate linked.whole done found
  obtain ⟨fresh, walked, rfl⟩ := map_eq_ok.mp installed
  have blank := blank_stageNodes walked
  have whole : (r.installSide ctx.database side fresh).Partitioned := .installSide ..
  refine ⟨showsPath_iff.mpr ⟨stages, found, shown⟩, ?_,
    counterparts_installSide linked ctx.database side blank, fun at' n member => ?_,
    toList_installSide r ctx.database side fresh, summary, fun at' => ?_⟩
  · refine List.map_injective_iff.mpr (fun _ _ => Option.some.inj) ?_
    rw [map_unlinked_sideNodes whole, others, map_unlinked_sideNodes linked.whole]
  · obtain ⟨x, _, known⟩ := List.mem_filterMap.mp member
    exact isEmpty_paired_installSide linked ctx.database side blank known
  · cases side <;> cases at' <;> rfl

/-! ## Populating where the record is kept -/

/-- Steps on a record where it is kept. What a step stored or linked stays when a later one fails.
-/
abbrev InPlace := ExceptT QueryError (StateM PathRecord)

/-- The outcome and the record that is left. -/
def InPlace.on {α : Type} (steps : InPlace α) (r : PathRecord) : QueryResult α × PathRecord :=
  steps.run.run r

theorem InPlace.on_bind {α β : Type} {steps : InPlace α} {value : α} (next : α → InPlace β)
    (done : steps.on r = (.ok value, r')) : (steps >>= next).on r = (next value).on r' := by
  change ExceptT.bindCont next (steps.on r).1 (steps.on r).2 = _
  rw [done]
  rfl

def store (fresh : List PathNode) : InPlace (List NodeId) :=
  fresh.mapM fun node => modifyGet fun r =>
    ((r.nodes.alloc node).1, { r with nodes := (r.nodes.alloc node).2 })

def populateInPlace (ctx : Context) (path : PathId) (offset : Double) (clockExpanded : Bool)
    (side : Side) : InPlace Unit := do
  let fresh ← stageNodes ctx path (side.shift offset) clockExpanded
  let ids ← store fresh
  modify fun r => { r with nodes := linkInstances ctx.database r.nodes ids }
  modify (·.replaceSide side ids)

theorem on_store (fresh : List PathNode) (r : PathRecord) : (store fresh).on r =
    (.ok (r.nodes.allocAll fresh).1, { r with nodes := (r.nodes.allocAll fresh).2 }) := by
  induction fresh generalizing r with
  | nil => rfl
  | cons node rest ih =>
    rw [store, List.mapM_cons]
    refine (InPlace.on_bind _ rfl).trans ?_
    exact InPlace.on_bind _ (ih { r with nodes := (r.nodes.alloc node).2 })

/-- Step by step as at once: the steps that may fail come before the first that stores a node. -/
theorem on_populateInPlace (ctx : Context) (path : PathId) (offset : Double) (clockExpanded : Bool)
    (side : Side) (r : PathRecord) : (populateInPlace ctx path offset clockExpanded side).on r =
      match r.populate ctx path offset clockExpanded side with
      | .ok r' => (.ok (), r')
      | .error e => (.error e, r) := by
  rw [populate_eq, populateInPlace]
  cases stageNodes ctx path (side.shift offset) clockExpanded with
  | error e => rfl
  | ok fresh =>
    refine (InPlace.on_bind _ rfl).trans ?_
    refine (InPlace.on_bind _ (on_store fresh r)).trans ?_
    exact InPlace.on_bind _ rfl

/-- What populating a side does, after any operations. It fails just if the path is unknown or a
stage that is kept has no terminal, for the first such stage, and then the caller is left with the
record as it was. Otherwise it replaces that side and nothing else. -/
theorem populate_replaces (operations : List Operation) (ctx : Context) (path : PathId)
    (offset : Double) (clockExpanded : Bool) (side : Side) :
    let r := PathRecord.empty.run operations
    let result := r.populate ctx path offset clockExpanded side
    (∀ e, result = .error e ↔ WalkFailure ctx path clockExpanded e) ∧
      (∀ e, result = .error e →
        (populateInPlace ctx path offset clockExpanded side).on r = (.error e, r)) ∧
      ∀ r', result = .ok r' →
        (populateInPlace ctx path offset clockExpanded side).on r = (.ok (), r') ∧
          r.Replaces ctx path offset clockExpanded side r' := by
  intro r result
  have steps := on_populateInPlace ctx path offset clockExpanded side r
  have linked : r.WellLinked := WellLinked.empty.run operations
  refine ⟨fun e => ?_, fun e failed => ?_, fun r' done => ⟨?_, replaces_of_populate linked done⟩⟩
  · rw [show result = _ from populate_eq .., map_eq_error, stageNodes_eq_error]
  · rw [steps, show r.populate ctx path offset clockExpanded side = .error e from failed]
  · rw [steps, show r.populate ctx path offset clockExpanded side = .ok r' from done]

/-- Both sides of the buffer's clock, paired. The launch side is populated again, and then a walk
along an unknown path fails. -/
theorem populate_replaces_buffer :
    let r := PathRecord.empty.run (repopulated.take 3)
    (∃ r', r.populate buffer ⟨0⟩ 0 true .launch = .ok r' ∧
      r'.counterparts .capture = [none, some 2, some 1] ∧
      (∀ n ∈ r'.captureNodes, n.paired.isEmpty = true) ∧
      r'.nodes.nodes.toList = r'.captureNodes ++ r'.launchNodes) ∧
    (populateInPlace buffer ⟨9⟩ 0 true .capture).on r = (.error (.unknownPath ⟨9⟩), r) := by
  intro r
  constructor
  · obtain ⟨r', done⟩ : ∃ r', r.populate buffer ⟨0⟩ 0 true .launch = .ok r' := ⟨_, rfl⟩
    obtain ⟨_, _, replaced⟩ :=
      populate_replaces (repopulated.take 3) buffer ⟨0⟩ 0 true .launch
    obtain ⟨_, replaces⟩ := replaced r' done
    have before : r.counterparts .capture = [none, some 2, some 1] := rfl
    exact ⟨r', done, replaces.counterparts.trans before, replaces.unpaired .capture, replaces.arena⟩
  · obtain ⟨_, unchanged, _⟩ :=
      populate_replaces (repopulated.take 3) buffer ⟨9⟩ 0 true .capture
    exact unchanged _ rfl

end PathRecord

end TimingExplorer
