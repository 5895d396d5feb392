import TimingExplorer.Proofs.Design.Replay
import TimingExplorer.Proofs.Failure

/-!
What a snapshot has to fulfil, one demand after the other in the order in which it is read. A demand
speaks of names only: a new one is not taken yet, one that refers to something is known. `Reads`
ties a loading to its demands: the first that is not met ends it with that demand's error, and if
all are met it has a result; in both cases its replay has the same outcome, so no building step
fails.
-/
namespace TimingExplorer

namespace Design

open Snapshot

inductive Demand where
  /-- A new name is none of these. -/
  | unused (name : String) (taken : List String)
  /-- The name of a pin is one of these. -/
  | pin (name : String) (known : List String)
  /-- The name of a corner is one of these. -/
  | corner (name : String) (known : List String)

namespace Demand

def Met : Demand → Prop
  | unused name taken => name ∉ taken
  | pin name known => name ∈ known
  | corner name known => name ∈ known

@[simp] theorem met_unused {name : String} {taken : List String} :
    (unused name taken).Met ↔ name ∉ taken := Iff.rfl

@[simp] theorem met_pin {name : String} {known : List String} :
    (pin name known).Met ↔ name ∈ known := Iff.rfl

@[simp] theorem met_corner {name : String} {known : List String} :
    (corner name known).Met ↔ name ∈ known := Iff.rfl

instance (demand : Demand) : Decidable demand.Met := by
  cases demand <;> unfold Met <;> infer_instance

/-- How loading ends at the demand if it is not met. -/
def error : Demand → SnapshotError
  | unused name _ => .duplicateName name
  | pin name _ => .unknownPin name
  | corner name _ => .unknownCorner name

end Demand

/-- The first demand that is not met ends with the error. -/
def FirstUnmet (demands : List Demand) (error : SnapshotError) : Prop :=
  ∃ before demand after, demands = before ++ demand :: after ∧
    (∀ earlier ∈ before, earlier.Met) ∧ ¬ demand.Met ∧ demand.error = error

theorem firstUnmet_iff {demands : List Demand} {error : SnapshotError} :
    FirstUnmet demands error ↔
      FirstFailure (fun demand error => ¬ demand.Met ∧ demand.error = error) demands error := by
  simp only [FirstUnmet, FirstFailure, not_and, forall_eq', not_imp_not]

theorem FirstUnmet.not_met {demands : List Demand} {error : SnapshotError}
    (first : FirstUnmet demands error) : ¬ ∀ demand ∈ demands, demand.Met := by
  obtain ⟨demand, member, unmet, _⟩ := (firstUnmet_iff.mp first).exists_mem
  exact fun met => unmet (met demand member)

theorem FirstUnmet.unique {demands : List Demand} {error error' : SnapshotError}
    (first : FirstUnmet demands error) (first' : FirstUnmet demands error') : error = error' :=
  (firstUnmet_iff.mp first).unique (fun _ _ _ failed failed' => failed.2.symm.trans failed'.2)
    (firstUnmet_iff.mp first')

/-- The demands of items that are read one after the other; those of an item may depend on the items
before it. -/
def inOrder {α : Type} (demands : List α → α → List Demand) : List α → List α → List Demand
  | _, [] => []
  | before, item :: rest => demands before item ++ inOrder demands (before ++ [item]) rest

theorem forall_met_inOrder {α : Type} {demands : List α → α → List Demand}
    {before items : List α} : (∀ demand ∈ inOrder demands before items, demand.Met) ↔
      ∀ passed item rest, items = passed ++ item :: rest →
        ∀ demand ∈ demands (before ++ passed) item, demand.Met := by
  induction items generalizing before with
  | nil => simp [inOrder]
  | cons first others ih =>
    simp only [inOrder, List.mem_append, or_imp, forall_and, ih]
    constructor
    · rintro ⟨here, later⟩ passed item rest split
      cases passed with
      | nil =>
        obtain ⟨rfl, rfl⟩ := List.cons.inj split
        simpa using here
      | cons _ passed =>
        obtain ⟨rfl, others⟩ := List.cons.inj split
        simpa using later passed item rest others
    · intro all
      refine ⟨by simpa using all [] first others rfl, fun passed item rest split => ?_⟩
      simpa using all (first :: passed) item rest (by rw [split]; rfl)

/-! ## Loading against demands -/

/-- A loading ends with the error of the first demand that is not met, and if all are met with a
result as promised. -/
def Answers {α : Type} (demands : List Demand) (promised : α → Prop) : Loaded α → Prop
  | .error e => FirstUnmet demands e
  | .ok result => (∀ demand ∈ demands, demand.Met) ∧ promised result

section Answers

variable {α β : Type} {demands more : List Demand} {demand : Demand} {P : α → Prop} {Q : β → Prop}
  {r : Loaded α} {f : α → Loaded β} {result : α}

theorem Answers.done (kept : P result) : Answers [] P (.ok result) := ⟨by simp, kept⟩

theorem Answers.imp {P' : α → Prop} (answers : Answers demands P r)
    (weaker : ∀ result, P result → P' result) : Answers demands P' r := by
  cases r with
  | error e => exact answers
  | ok result => exact ⟨answers.1, weaker result answers.2⟩

theorem Answers.exists_ok_iff (answers : Answers demands P r) :
    (∃ result, r = .ok result) ↔ ∀ demand ∈ demands, demand.Met := by
  cases r with
  | ok result => exact ⟨fun _ => answers.1, fun _ => ⟨result, rfl⟩⟩
  | error e =>
    exact ⟨fun ⟨_, same⟩ => (nomatch same), fun met => absurd met (FirstUnmet.not_met answers)⟩

theorem Answers.eq_error_iff {e : SnapshotError} (answers : Answers demands P r) :
    r = .error e ↔ FirstUnmet demands e := by
  cases r with
  | ok result =>
    exact ⟨fun same => (nomatch same), fun first => absurd answers.1 first.not_met⟩
  | error e' =>
    rw [Except.error.injEq]
    exact ⟨fun same => same ▸ answers, fun first => FirstUnmet.unique answers first⟩

theorem Answers.refuse (demand : Demand) (unmet : ¬ demand.Met) :
    Answers (demand :: demands) P (.error demand.error) :=
  ⟨[], demand, demands, rfl, by simp, unmet, rfl⟩

/-- Demands that are met may be put before those of a loading. -/
theorem Answers.after (met : ∀ demand ∈ demands, demand.Met) (answers : Answers more P r) :
    Answers (demands ++ more) P r := by
  cases r with
  | error e =>
    obtain ⟨before, unmet, after, rfl, earlier, here⟩ := answers
    refine ⟨demands ++ before, unmet, after, (List.append_assoc _ _ _).symm, ?_, here⟩
    intro demand member
    exact (List.mem_append.mp member).elim (met demand) (earlier demand)
  | ok result =>
    refine ⟨fun demand member => ?_, answers.2⟩
    exact (List.mem_append.mp member).elim (met demand) (answers.1 demand)

theorem Answers.pass (met : demand.Met) (answers : Answers demands P r) :
    Answers (demand :: demands) P r := by
  have all : ∀ earlier ∈ [demand], earlier.Met := by simpa using met
  exact .after all answers

theorem Answers.bind (first : Answers demands P r)
    (next : ∀ result, P result → Answers more Q (f result)) :
    Answers (demands ++ more) Q (r >>= f) := by
  cases r with
  | error e =>
    obtain ⟨before, unmet, after, rfl, rest⟩ := first
    exact ⟨before, unmet, after ++ more, by simp, rest⟩
  | ok result => exact .after first.1 (next result first.2)

end Answers

/-- A loading answers its demands, and its replay by building steps does the same. -/
structure Reads {α : Type} (demands : List Demand) (promised : α → Prop) (replayed : Replay α)
    (loaded : Loaded α) : Prop where
  replayed_eq : replayed = .of loaded
  answers : Answers demands promised loaded

namespace Reads

variable {α β σ : Type} {demands more : List Demand} {demand : Demand} {P : α → Prop} {Q : β → Prop}
  {x : Replay α} {r : Loaded α} {g : α → Replay β} {f : α → Loaded β} {result : α}

theorem of (answers : Answers demands P r) : Reads demands P (.of r) r := ⟨rfl, answers⟩

theorem done (kept : P result) : Reads [] P (pure result) (.ok result) := ⟨rfl, .done kept⟩

theorem perform {d e : Design} {steps : List BuildStep} {P : Design → Prop}
    (built : d.Buildable) (done : d.buildAll? steps = some e) (kept : P e) :
    Reads [] P (d.perform steps) (.ok e) := by
  refine ⟨?_, .done kept⟩
  rw [built.perform_eq done]
  rfl

theorem imp {P' : α → Prop} (reads : Reads demands P x r)
    (weaker : ∀ result, P result → P' result) : Reads demands P' x r :=
  ⟨reads.replayed_eq, reads.answers.imp weaker⟩

theorem refuse (demand : Demand) (unmet : ¬ demand.Met) :
    Reads (demand :: demands) P (.of (.error demand.error)) (.error demand.error) :=
  of (.refuse demand unmet)

theorem pass (met : demand.Met) (reads : Reads demands P x r) :
    Reads (demand :: demands) P x r :=
  ⟨reads.replayed_eq, reads.answers.pass met⟩

/-- A table that tells whether a name is taken is asked before anything else. -/
theorem unused {taken : Bool} {name : String} {names : List String}
    (listed : taken = true ↔ name ∈ names) (next : name ∉ names → Reads demands P x r) :
    Reads (.unused name names :: demands) P
      (if taken then .of (.error (.duplicateName name)) else x)
      (if taken then .error (.duplicateName name) else r) := by
  by_cases old : name ∈ names
  · rw [if_pos (listed.mpr old), if_pos (listed.mpr old)]
    exact refuse (.unused name names) (not_not_intro old)
  · rw [if_neg (mt listed.mp old), if_neg (mt listed.mp old)]
    exact pass old (next old)

/-- A look-up in a table that knows just the names that meet a demand. -/
theorem lookUp (demand : Demand) (found : Option α)
    (known : found.isSome = true ↔ demand.Met) :
    Reads [demand] (fun result => found = some result) (.of (found.elim (.error demand.error) .ok))
      (found.elim (.error demand.error) .ok) := by
  refine of ?_
  cases found with
  | some result => exact .pass (known.mp rfl) (.done rfl)
  | none => exact .refuse demand (by simpa using known)

theorem bind (first : Reads demands P x r)
    (next : ∀ result, P result → Reads more Q (g result) (f result)) :
    Reads (demands ++ more) Q (x >>= g) (r >>= f) := by
  refine ⟨?_, first.answers.bind fun result kept => (next result kept).answers⟩
  rw [first.replayed_eq]
  cases r with
  | error e => rfl
  | ok result => exact (next result first.answers.2).replayed_eq

/-- A last part that demands nothing more. -/
theorem bindDone (first : Reads demands P x r)
    (last : ∀ result, P result → Reads [] Q (g result) (f result)) :
    Reads demands Q (x >>= g) (r >>= f) :=
  List.append_nil demands ▸ first.bind last

/-- Building steps before a loading. -/
theorem performThen {d e : Design} {steps : List BuildStep} {g : Design → Replay β}
    {y : Loaded β} (built : d.Buildable) (done : d.buildAll? steps = some e)
    (next : Reads demands Q (g e) y) :
    Reads demands Q (d.perform steps >>= g) y := by
  refine ⟨?_, next.answers⟩
  rw [built.perform_eq done]
  exact next.replayed_eq

/-- Items read one after the other, with an invariant on what has been read so far. -/
theorem foldlM {replayStep : σ → α → Replay σ} {step : σ → α → Loaded σ}
    {itemDemands : List α → α → List Demand} (inv : List α → σ → Prop)
    (each : ∀ before item d, inv before d →
      Reads (itemDemands before item) (inv (before ++ [item])) (replayStep d item) (step d item))
    {before items : List α} {d : σ} (start : inv before d) :
    Reads (inOrder itemDemands before items) (inv (before ++ items))
      (items.foldlM replayStep d) (items.foldlM step d) := by
  induction items generalizing before d with
  | nil =>
    rw [List.append_nil]
    exact done start
  | cons item rest ih =>
    rw [List.foldlM_cons, List.foldlM_cons, inOrder]
    refine (each before item d start).bind fun next kept => ?_
    simpa using ih kept

end Reads

end Design

/-! ## The demands of a snapshot -/

namespace Snapshot

open Design

/-- The name by which a pin of an instance goes in the whole design. -/
def InstanceSpec.fullName (spec : InstanceSpec) (pin : String) : String := spec.name ++ "/" ++ pin

def InstanceSpec.pinNames (spec : InstanceSpec) : List String :=
  spec.pins.map fun pin => spec.fullName pin.name

def blockPinNames (s : Snapshot) : List String := s.blockPins.map (·.name)

def instancePinNames (s : Snapshot) : List String := s.instances.flatMap InstanceSpec.pinNames

/-- The names of all pins, in the order of their ids. -/
def pinNames (s : Snapshot) : List String := s.blockPinNames ++ s.instancePinNames

def blockPinDemands : List PinSpec → PinSpec → List Demand :=
  fun before spec => [.unused spec.name (before.map (·.name))]

/-- The demands of the pins of an instance, with the names that pins have already. -/
def instancePinDemands (taken : List String) (inst : InstanceSpec) :
    List PinSpec → PinSpec → List Demand :=
  fun before spec => [.unused (inst.fullName spec.name)
    (taken ++ before.map fun pin => inst.fullName pin.name)]

def arcDemands (known : List String) (inst : InstanceSpec) :
    List (String × String) → String × String → List Demand :=
  fun _ arc => [.pin (inst.fullName arc.1) known, .pin (inst.fullName arc.2) known]

def instanceDemands (blockPins : List String) : List InstanceSpec → InstanceSpec → List Demand :=
  fun before spec =>
    let taken := blockPins ++ before.flatMap InstanceSpec.pinNames
    .unused spec.name (before.map (·.name)) ::
      (inOrder (instancePinDemands taken spec) [] spec.pins ++
        inOrder (arcDemands (taken ++ spec.pinNames) spec) [] spec.arcs)

def memberDemands (pins : List String) : List String → String → List Demand :=
  fun before name => [.pin name pins, .unused name before]

def netDemands (pins : List String) : List NetSpec → NetSpec → List Demand :=
  fun before spec => .unused spec.name (before.map (·.name)) ::
    inOrder (memberDemands pins) [] spec.pins

def timingDemands (pins corners : List String) : List TimingSpec → TimingSpec → List Demand :=
  fun _ spec => [.pin spec.pin pins, .corner spec.corner corners]

def stageDemands (pins : List String) (stages : List StageSpec) : List Demand :=
  stages.map fun stage => .pin stage.pin pins

def pathDemands (pins corners : List String) : List PathSpec → PathSpec → List Demand :=
  fun _ spec => .corner spec.corner corners :: (stageDemands pins spec.stages ++
    spec.capture.elim [] fun capture => stageDemands pins capture.stages)

/-- All demands, in the order in which a snapshot is read. -/
def demands (s : Snapshot) : List Demand :=
  inOrder blockPinDemands [] s.blockPins ++
    (inOrder (instanceDemands s.blockPinNames) [] s.instances ++
      (inOrder (netDemands s.pinNames) [] s.nets ++
        (inOrder (timingDemands s.pinNames s.corners) [] s.timing ++
          inOrder (pathDemands s.pinNames s.corners) [] s.paths)))

end Snapshot

end TimingExplorer
