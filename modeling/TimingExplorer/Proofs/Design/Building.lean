import TimingExplorer.Design.Builder

/-!
Designs as they are built: any sequence of building steps, none of which names an id that the design
does not have. Two tables tell where a pin belongs, its own entry and the lists of nets and
instances, and on a built design they agree.
-/
namespace TimingExplorer

namespace Design

/-- One step of building a design, with the ids that it is given. -/
inductive BuildStep where
  | corner (name : String)
  | inst (name master : String)
  | sequential (inst : InstanceId)
  | pin (inst : InstanceId) (name : String) (direction : PinDirection)
  | clockPin (inst : InstanceId) (name : String)
  | blockPin (name : String) (direction : PinDirection)
  | markClock (pin : PinId)
  | shape (pin : PinId) (shape : Rect)
  | arc (input output : PinId)
  | net (name : String) (pins : List PinId)
  | timing (pin : PinId) (point : AnalysisPoint) (timing : PinTiming)
  | path (point : AnalysisPoint) (summary : PathSummary) (stages : List PathStage)
  | capture (launch : PathId) (offset : Double) (stages : List PathStage)

/-- The design after a step, or none if the step names something that the design does not have. -/
def build? (d : Design) : BuildStep → Option Design
  | .corner name => some (d.addCorner name).2
  | .inst name master => some (d.addInstance name master).2
  | .sequential inst => d.markSequential? inst
  | .pin inst name direction => (d.addPin? inst name direction).map Prod.snd
  | .clockPin inst name => (d.addClockPin? inst name).map Prod.snd
  | .blockPin name direction => some (d.addBlockPin name direction).2
  | .markClock pin => d.markClock? pin
  | .shape pin shape => d.addShape? pin shape
  | .arc input output => d.addArc? input output
  | .net name pins => (d.addNet? name pins).map Prod.snd
  | .timing pin point timing => some (d.setTiming pin point timing)
  | .path point summary stages => some (d.addPath point summary stages).2
  | .capture launch offset stages => (d.addCapture? launch offset stages).map Prod.snd

/-- What each step comes to, for a design that has all that the step names. -/
inductive Built (d : Design) : BuildStep → Design → Prop where
  | corner (name : String) : Built d (.corner name) (d.addCorner name).2
  | inst (name master : String) : Built d (.inst name master) (d.addInstance name master).2
  | sequential (inst : InstanceId) : Built d (.sequential inst) (d.markSequential inst)
  | pin {inst : InstanceId} (name : String) (direction : PinDirection) {i : Instance}
      (found : d.instances.get? inst = some i) :
      Built d (.pin inst name direction) (d.addInstancePin inst i.name name direction).2
  | clockPin {inst : InstanceId} (name : String) {i : Instance}
      (found : d.instances.get? inst = some i) : Built d (.clockPin inst name)
        ((d.addInstancePin inst i.name name .input).2.markClock d.pins.nextId)
  | blockPin (name : String) (direction : PinDirection) :
      Built d (.blockPin name direction) (d.addBlockPin name direction).2
  | markClock (pin : PinId) : Built d (.markClock pin) (d.markClock pin)
  | shape (pin : PinId) (shape : Rect) : Built d (.shape pin shape) (d.addShape pin shape)
  | droppedArc (input output : PinId) : Built d (.arc input output) d
  | arc {input : PinId} (output : PinId) {p : Pin} {inst : InstanceId}
      (found : d.pins.get? input = some p) (placed : p.inst = some inst) :
      Built d (.arc input output)
        { d with
          instances := d.instances.modify inst fun i =>
            { i with arcs := i.arcs ++ [(input, output)] } }
  | net (name : String) {pins : List PinId} (found : ∀ pin ∈ pins, d.pins.contains pin = true) :
      Built d (.net name pins) (d.addNet name pins).2
  | timing (pin : PinId) (point : AnalysisPoint) (timing : PinTiming) :
      Built d (.timing pin point timing) (d.setTiming pin point timing)
  | path (point : AnalysisPoint) (summary : PathSummary) (stages : List PathStage) :
      Built d (.path point summary stages) (d.addPath point summary stages).2
  | capture {launch : PathId} {base : StoredPath} (offset : Double) (stages : List PathStage)
      (found : d.paths.get? launch = some base) : Built d (.capture launch offset stages)
        { d with
          paths := (d.paths.push (captureOf base stages)).modify launch fun p =>
            { p with capture := some { path := d.paths.nextId, offset } } }

theorem built_of_build? {d e : Design} {step : BuildStep} (done : d.build? step = some e) :
    d.Built step e := by
  cases step with
  | corner name => exact Option.some.inj done ▸ .corner name
  | inst name master => exact Option.some.inj done ▸ .inst name master
  | sequential inst =>
    obtain ⟨_, done⟩ := Option.ite_none_right_eq_some.mp done
    exact Option.some.inj done ▸ .sequential inst
  | pin inst name direction =>
    obtain ⟨_, added, rfl⟩ := Option.map_eq_some_iff.mp done
    obtain ⟨i, found, rfl⟩ := Option.map_eq_some_iff.mp added
    exact .pin name direction found
  | clockPin inst name =>
    obtain ⟨_, marked, rfl⟩ := Option.map_eq_some_iff.mp done
    obtain ⟨_, added, rfl⟩ := Option.map_eq_some_iff.mp marked
    obtain ⟨i, found, rfl⟩ := Option.map_eq_some_iff.mp added
    exact .clockPin name found
  | blockPin name direction => exact Option.some.inj done ▸ .blockPin name direction
  | markClock pin =>
    obtain ⟨_, done⟩ := Option.ite_none_right_eq_some.mp done
    exact Option.some.inj done ▸ .markClock pin
  | shape pin shape =>
    obtain ⟨_, done⟩ := Option.ite_none_right_eq_some.mp done
    exact Option.some.inj done ▸ .shape pin shape
  | arc input output =>
    obtain ⟨p, found, rfl⟩ := Option.map_eq_some_iff.mp done
    cases placed : p.inst with
    | none => exact .droppedArc input output
    | some inst => exact .arc output found placed
  | net name pins =>
    obtain ⟨_, added, rfl⟩ := Option.map_eq_some_iff.mp done
    obtain ⟨found, added⟩ := Option.ite_none_right_eq_some.mp added
    exact Option.some.inj added ▸ .net name (List.all_eq_true.mp found)
  | timing pin point timing => exact Option.some.inj done ▸ .timing pin point timing
  | path point summary stages => exact Option.some.inj done ▸ .path point summary stages
  | capture launch offset stages =>
    obtain ⟨_, added, rfl⟩ := Option.map_eq_some_iff.mp done
    obtain ⟨base, found, rfl⟩ := Option.map_eq_some_iff.mp added
    exact .capture offset stages found

def buildAll? (d : Design) (steps : List BuildStep) : Option Design := steps.foldlM build? d

/-- What every step keeps holds after any number of steps. -/
theorem buildAll?_induction {motive : Design → Prop} {d built : Design} {steps : List BuildStep}
    (kept : ∀ d step next, step ∈ steps → motive d → d.Built step next → motive next)
    (start : motive d) (done : d.buildAll? steps = some built) : motive built := by
  induction steps generalizing d with
  | nil =>
    obtain rfl := Option.some.inj done
    exact start
  | cons step rest ih =>
    obtain ⟨next, first, later⟩ := Option.bind_eq_some_iff.mp done
    refine ih (fun d step next listed => kept d step next (.tail _ listed)) ?_ later
    exact kept d step next (.head _) start (built_of_build? first)

/-- The instance of a pin. -/
def pinCell (d : Design) (pin : PinId) : Option InstanceId := (d.pins.get? pin).bind (·.inst)

/-- The pins that an instance lists. -/
def cellPins (d : Design) (inst : InstanceId) : List PinId :=
  (d.instances.get? inst).elim [] (·.pins)

/-- The pins that a net lists. -/
def members (d : Design) (net : NetId) : List PinId := (d.nets.get? net).elim [] (·.pins)

/-- The lists of nets and instances agree with what each pin says of itself. -/
structure Wired (d : Design) : Prop where
  mem_members : ∀ pin net, pin ∈ d.members net ↔ d.pinNet pin = some net
  mem_cellPins : ∀ pin inst, pin ∈ d.cellPins inst ↔ d.pinCell pin = some inst

variable {d e : Design} {pin other : PinId} {net old : NetId} {inst : InstanceId}

theorem exists_of_pinNet (attached : d.pinNet pin = some net) : d.pins.contains pin = true := by
  obtain ⟨p, found, _⟩ := Option.bind_eq_some_iff.mp attached
  rw [← Arena.isSome_get?, found]
  rfl

theorem exists_of_pinCell (placed : d.pinCell pin = some inst) : d.pins.contains pin = true := by
  obtain ⟨p, found, _⟩ := Option.bind_eq_some_iff.mp placed
  rw [← Arena.isSome_get?, found]
  rfl

theorem get?_nextId {kind : IdKind} {α : Type} (a : Arena kind α) : a.get? a.nextId = none := by
  simp [Arena.get?, Arena.nextId]

theorem Wired.of_eq (wired : d.Wired) (nets : e.members = d.members)
    (netOf : e.pinNet = d.pinNet) (cells : e.cellPins = d.cellPins)
    (cellOf : e.pinCell = d.pinCell) : e.Wired where
  mem_members pin net := by rw [nets, netOf]; exact wired.mem_members pin net
  mem_cellPins pin inst := by rw [cells, cellOf]; exact wired.mem_cellPins pin inst

theorem Wired.empty : Design.empty.Wired where
  mem_members pin net := by simp [members, pinNet, Design.empty]
  mem_cellPins pin inst := by simp [cellPins, pinCell, Design.empty]

/-! Steps that leave all four tables as they are. -/

theorem elim_get?_modify {kind : IdKind} {α β : Type} (a : Arena kind α) (id at' : Id kind)
    (f : α → α) (view : α → β) (none : β) (keeps : ∀ x, view (f x) = view x) :
    ((a.modify id f).get? at').elim none view = (a.get? at').elim none view := by
  rw [Arena.get?_modify]
  cases a.get? at' <;> split <;> simp [keeps]

theorem bind_get?_modify {kind : IdKind} {α β : Type} (a : Arena kind α) (id at' : Id kind)
    (f : α → α) (view : α → Option β) (keeps : ∀ x, view (f x) = view x) :
    ((a.modify id f).get? at').bind view = (a.get? at').bind view := by
  rw [Arena.get?_modify]
  cases a.get? at' <;> split <;> simp [keeps]

theorem Wired.modifyPin (wired : d.Wired) (f : Pin → Pin) (net : ∀ p, (f p).net = p.net)
    (inst : ∀ p, (f p).inst = p.inst) :
    ({ d with pins := d.pins.modify pin f } : Design).Wired := by
  have netOf (at' : PinId) := bind_get?_modify d.pins pin at' f (·.net) net
  have cellOf (at' : PinId) := bind_get?_modify d.pins pin at' f (·.inst) inst
  exact wired.of_eq rfl (funext netOf) rfl (funext cellOf)

theorem Wired.modifyInstance (wired : d.Wired) (f : Instance → Instance)
    (keeps : ∀ i, (f i).pins = i.pins) :
    ({ d with instances := d.instances.modify inst f } : Design).Wired := by
  have cells (at' : InstanceId) : ((d.instances.modify inst f).get? at').elim [] (·.pins) =
      (d.instances.get? at').elim [] (·.pins) := elim_get?_modify _ _ _ _ _ _ keeps
  exact wired.of_eq rfl rfl (funext cells) rfl

theorem Wired.addCorner (wired : d.Wired) (name : String) : (d.addCorner name).2.Wired := by
  unfold Design.addCorner
  split
  · exact wired
  · exact wired.of_eq rfl rfl rfl rfl

theorem Wired.addInstance (wired : d.Wired) (name master : String) :
    (d.addInstance name master).2.Wired := by
  refine wired.of_eq rfl rfl (funext fun inst => ?_) rfl
  simp only [cellPins, Design.addInstance, Arena.get?_push]
  split
  · next fresh => rw [fresh, get?_nextId]; rfl
  · rfl

theorem Wired.addBlockPin (wired : d.Wired) (name : String) (direction : PinDirection) :
    (d.addBlockPin name direction).2.Wired := by
  refine wired.of_eq rfl (funext fun pin => ?_) rfl (funext fun pin => ?_)
  all_goals
    simp only [pinNet, pinCell, Design.addBlockPin, Arena.get?_push]
    split
    · next fresh => rw [fresh, get?_nextId]; rfl
    · rfl

/-! A new pin of an instance goes to the end of the instance's list. -/

theorem pinCell_addInstancePin (instName name : String) (direction : PinDirection) :
    (d.addInstancePin inst instName name direction).2.pinCell pin =
      if pin = d.pins.nextId then some inst else d.pinCell pin := by
  simp only [pinCell, Design.addInstancePin, Arena.get?_push]
  split <;> rfl

theorem Wired.addInstancePin (wired : d.Wired) (placed : d.instances.contains inst = true)
    (instName name : String) (direction : PinDirection) :
    (d.addInstancePin inst instName name direction).2.Wired := by
  have netOf (pin) : (d.addInstancePin inst instName name direction).2.pinNet pin =
      d.pinNet pin := by
    simp only [pinNet, Design.addInstancePin, Arena.get?_push]
    split
    · next fresh => rw [fresh, get?_nextId]; rfl
    · rfl
  have cells (at') : (d.addInstancePin inst instName name direction).2.cellPins at' =
      if inst = at' then d.cellPins at' ++ [d.pins.nextId] else d.cellPins at' := by
    simp only [cellPins, Design.addInstancePin, Arena.get?_modify]
    split
    · next same =>
      subst same
      rw [← Arena.isSome_get?, Option.isSome_iff_exists] at placed
      obtain ⟨i, found⟩ := placed
      simp [found]
    · rfl
  have unlisted (at') : d.pins.nextId ∉ d.cellPins at' := by
    simp [wired.mem_cellPins, pinCell, get?_nextId]
  refine ⟨fun pin net => ?_, fun pin at' => ?_⟩
  · rw [netOf]
    exact wired.mem_members pin net
  · rw [pinCell_addInstancePin, cells]
    by_cases fresh : pin = d.pins.nextId <;> by_cases same : inst = at'
    · simp [fresh, same]
    · simp [fresh, same, unlisted]
    · simp [fresh, same, wired.mem_cellPins]
    · simp [fresh, same, wired.mem_cellPins]

/-! Moving pins to a net: the nets that they were on lose them. -/

theorem pins_attach (d : Design) (net : NetId) (pin : PinId) : (d.attach net pin).pins =
    d.pins.modify pin fun p => { p with net := some net } := rfl

theorem pinNet_attach (found : d.pins.contains pin = true) : (d.attach net pin).pinNet other =
    if pin = other then some net else d.pinNet other := by
  rw [pinNet, pins_attach, Arena.get?_modify]
  split
  · next same =>
    rw [← Arena.isSome_get?, Option.isSome_iff_exists] at found
    obtain ⟨p, found⟩ := found
    rw [← same, found]
    rfl
  · rfl

theorem members_attach (listed : ∀ pin net, pin ∈ d.members net → d.pinNet pin = some net) :
    (d.attach net pin).members old = (d.members old).filter (· ≠ pin) := by
  have absent (elsewhere : d.pinNet pin ≠ some old) :
      (d.members old).filter (· ≠ pin) = d.members old := by
    rw [List.filter_eq_self]
    intro other member
    have : other ≠ pin := by
      rintro rfl
      exact elsewhere (listed _ _ member)
    simpa using this
  simp only [members, Design.attach]
  cases attached : d.pinNet pin with
  | none => exact (absent (by simp [attached])).symm
  | some was =>
    simp only [Arena.get?_modify]
    split
    · next same =>
      subst same
      cases d.nets.get? was <;> rfl
    · next differs => exact (absent (by simpa [attached] using differs)).symm

theorem listed_attach (listed : ∀ pin net, pin ∈ d.members net → d.pinNet pin = some net)
    (found : d.pins.contains pin = true) :
    ∀ other old, other ∈ (d.attach net pin).members old →
      (d.attach net pin).pinNet other = some old := by
  intro other old member
  rw [members_attach listed, List.mem_filter] at member
  have differs : pin ≠ other := fun same => of_decide_eq_true member.2 same.symm
  rw [pinNet_attach found, if_neg differs]
  exact listed other old member.1

/-- After any pins have been moved, just these are on the net, and all lists have lost them. -/
theorem views_attachAll {pins : List PinId} (found : ∀ pin ∈ pins, d.pins.contains pin = true)
    (listed : ∀ pin net, pin ∈ d.members net → d.pinNet pin = some net) :
    (∀ pin, (pins.foldl (attach · net) d).pinNet pin =
      if pin ∈ pins then some net else d.pinNet pin) ∧
    (∀ old, (pins.foldl (attach · net) d).members old = (d.members old).filter (· ∉ pins)) := by
  induction pins generalizing d with
  | nil => exact ⟨fun _ => rfl, fun old => (List.filter_eq_self.mpr fun _ _ => rfl).symm⟩
  | cons first rest ih =>
    have here := found first List.mem_cons_self
    have still : ∀ pin ∈ rest, (d.attach net first).pins.contains pin = true := by
      intro pin member
      rw [pins_attach, Arena.contains_iff, Arena.size_modify, ← Arena.contains_iff]
      exact found pin (List.mem_cons_of_mem _ member)
    obtain ⟨nets, lists⟩ := ih still (listed_attach listed here)
    refine ⟨fun pin => ?_, fun old => ?_⟩
    · rw [List.foldl_cons, nets, pinNet_attach here]
      by_cases later : pin ∈ rest
      · simp [later]
      · simp [later, eq_comm]
    · rw [List.foldl_cons, lists, members_attach listed, List.filter_filter]
      refine List.filter_congr fun pin _ => ?_
      by_cases later : pin ∈ rest <;> simp [later]

/-- Moving pins touches neither instances and paths nor the place of a pin in its instance. -/
theorem frame_attachAll (pins : List PinId) :
    (pins.foldl (attach · net) d).nets.nextId = d.nets.nextId ∧
    (pins.foldl (attach · net) d).instances = d.instances ∧
    (pins.foldl (attach · net) d).paths = d.paths ∧
    (pins.foldl (attach · net) d).pinCell = d.pinCell := by
  induction pins generalizing d with
  | nil => exact ⟨rfl, rfl, rfl, rfl⟩
  | cons first rest ih =>
    obtain ⟨next, instances, paths, cellOf⟩ := @ih (d.attach net first)
    refine ⟨next.trans ?_, instances.trans rfl, paths.trans rfl,
      cellOf.trans (funext fun pin => ?_)⟩
    · unfold Design.attach
      cases d.pinNet first <;> simp [Arena.nextId, Arena.modify]
    · exact bind_get?_modify d.pins first pin _ (·.inst) fun _ => rfl

theorem instances_addNet (name : String) (pins : List PinId) :
    (d.addNet name pins).2.instances = d.instances :=
  (@frame_attachAll d d.nets.nextId pins.eraseDups).2.1

theorem paths_addNet (name : String) (pins : List PinId) :
    (d.addNet name pins).2.paths = d.paths :=
  (@frame_attachAll d d.nets.nextId pins.eraseDups).2.2.1

theorem pinCell_addNet (name : String) (pins : List PinId) :
    (d.addNet name pins).2.pinCell = d.pinCell :=
  (@frame_attachAll d d.nets.nextId pins.eraseDups).2.2.2

theorem members_addNet {pins : List PinId} (found : ∀ pin ∈ pins, d.pins.contains pin = true)
    (listed : ∀ pin net, pin ∈ d.members net → d.pinNet pin = some net) (name : String) :
    (d.addNet name pins).2.members old =
      if old = d.nets.nextId then pins.eraseDups else (d.members old).filter (· ∉ pins) := by
  have found' : ∀ pin ∈ pins.eraseDups, d.pins.contains pin = true :=
    fun pin member => found pin (List.mem_eraseDups.mp member)
  have lists := (@views_attachAll d d.nets.nextId _ found' listed).2 old
  obtain ⟨next, _⟩ := @frame_attachAll d d.nets.nextId pins.eraseDups
  simp only [List.mem_eraseDups, members] at lists
  simp only [members, Design.addNet, Arena.get?_push, next]
  split
  · rfl
  · exact lists

theorem pinNet_addNet {pins : List PinId} (found : ∀ pin ∈ pins, d.pins.contains pin = true)
    (listed : ∀ pin net, pin ∈ d.members net → d.pinNet pin = some net) (name : String) :
    (d.addNet name pins).2.pinNet pin =
      if pin ∈ pins then some d.nets.nextId else d.pinNet pin := by
  have found' : ∀ pin ∈ pins.eraseDups, d.pins.contains pin = true :=
    fun pin member => found pin (List.mem_eraseDups.mp member)
  have nets := (@views_attachAll d d.nets.nextId _ found' listed).1 pin
  simp only [List.mem_eraseDups] at nets
  exact nets

theorem Wired.addNet {pins : List PinId} (wired : d.Wired)
    (found : ∀ pin ∈ pins, d.pins.contains pin = true) (name : String) :
    (d.addNet name pins).2.Wired := by
  have listed : ∀ pin net, pin ∈ d.members net → d.pinNet pin = some net :=
    fun pin net => (wired.mem_members pin net).mp
  have unused (pin) : ¬ d.pinNet pin = some d.nets.nextId := by
    rw [← wired.mem_members]
    simp [members, get?_nextId]
  have cells : (d.addNet name pins).2.cellPins = d.cellPins := by
    funext inst
    rw [cellPins, instances_addNet, cellPins]
  refine ⟨fun pin at' => ?_, fun pin at' => ?_⟩
  · rw [pinNet_addNet found listed, members_addNet found listed]
    by_cases fresh : at' = d.nets.nextId <;> by_cases moved : pin ∈ pins
    · simp [fresh, moved]
    · simp [fresh, moved, unused]
    · simp [fresh, moved, eq_comm]
    · simp [fresh, moved, wired.mem_members]
  · rw [pinCell_addNet, cells]
    exact wired.mem_cellPins pin at'

/-! Every step keeps the tables in agreement, and so does a whole sequence of them. -/

theorem Wired.built {step : BuildStep} (wired : d.Wired) (built : d.Built step e) : e.Wired := by
  have placed {inst i} (found : d.instances.get? inst = some i) :
      d.instances.contains inst = true := by
    rw [← Arena.isSome_get?, found]
    rfl
  cases built with
  | corner name => exact wired.addCorner name
  | inst name master => exact wired.addInstance name master
  | sequential inst => exact wired.modifyInstance _ fun _ => rfl
  | pin name direction found => exact wired.addInstancePin (placed found) _ name direction
  | clockPin name found =>
    exact (wired.addInstancePin (placed found) _ name .input).modifyPin _ (fun _ => rfl)
      fun _ => rfl
  | blockPin name direction => exact wired.addBlockPin name direction
  | markClock pin => exact wired.modifyPin _ (fun _ => rfl) fun _ => rfl
  | shape pin shape => exact wired.modifyPin _ (fun _ => rfl) fun _ => rfl
  | droppedArc input output => exact wired
  | arc output found placed => exact wired.modifyInstance _ fun _ => rfl
  | net name found => exact wired.addNet found name
  | timing pin point timing => exact wired.of_eq rfl rfl rfl rfl
  | path point summary stages => exact wired.of_eq rfl rfl rfl rfl
  | capture offset stages found => exact wired.of_eq rfl rfl rfl rfl

theorem Wired.buildAll? {steps : List BuildStep} (done : Design.empty.buildAll? steps = some d) :
    d.Wired :=
  buildAll?_induction (fun _ _ _ _ => Wired.built) .empty done

/-! A pin stays at its instance, and arcs come from nowhere but the steps that write them. -/

/-- The written arcs of an instance. -/
def arcsOf (d : Design) (inst : InstanceId) : List (PinId × PinId) :=
  (d.instances.get? inst).elim [] (·.arcs)

theorem pinCell_markClock (at' : PinId) : (d.markClock at').pinCell pin = d.pinCell pin :=
  bind_get?_modify d.pins at' pin _ (·.inst) fun _ => rfl

theorem pinCell_addShape (at' : PinId) (shape : Rect) :
    (d.addShape at' shape).pinCell pin = d.pinCell pin :=
  bind_get?_modify d.pins at' pin _ (·.inst) fun _ => rfl

theorem Built.pinCell {step : BuildStep} (built : d.Built step e)
    (placed : d.pinCell pin = some inst) : e.pinCell pin = some inst := by
  have old : pin ≠ d.pins.nextId := by
    rintro rfl
    simp [Design.pinCell, get?_nextId] at placed
  cases built with
  | corner name =>
    unfold addCorner
    split <;> exact placed
  | pin name direction found => rwa [pinCell_addInstancePin, if_neg old]
  | clockPin name found =>
    rwa [pinCell_markClock, pinCell_addInstancePin, if_neg old]
  | blockPin name direction =>
    rw [Design.pinCell, addBlockPin, Arena.get?_push, if_neg old]
    exact placed
  | markClock at' => rwa [pinCell_markClock]
  | shape at' shape => rwa [pinCell_addShape]
  | net name found => rwa [pinCell_addNet]
  | inst | sequential | droppedArc | arc | timing | path | capture => exact placed

theorem arcsOf_markSequential (at' : InstanceId) :
    (d.markSequential at').arcsOf inst = d.arcsOf inst :=
  elim_get?_modify _ _ _ _ _ _ fun _ => rfl

theorem arcsOf_markClock (pin : PinId) : (d.markClock pin).arcsOf inst = d.arcsOf inst := rfl

theorem arcsOf_addInstancePin (at' : InstanceId) (instName name : String)
    (direction : PinDirection) :
    (d.addInstancePin at' instName name direction).2.arcsOf inst = d.arcsOf inst :=
  elim_get?_modify _ _ _ _ _ _ fun _ => rfl

theorem Built.mem_arcsOf {step : BuildStep} {arc : PinId × PinId} (built : d.Built step e)
    (member : arc ∈ e.arcsOf inst) :
    arc ∈ d.arcsOf inst ∨ step = .arc arc.1 arc.2 ∧ d.pinCell arc.1 = some inst := by
  cases built with
  | corner name =>
    unfold addCorner at member
    split at member <;> exact .inl member
  | inst name master =>
    rw [arcsOf, addInstance, Arena.get?_push] at member
    split at member
    · cases member
    · exact .inl member
  | sequential =>
    rw [arcsOf_markSequential] at member
    exact .inl member
  | pin =>
    rw [arcsOf_addInstancePin] at member
    exact .inl member
  | clockPin =>
    rw [arcsOf_markClock, arcsOf_addInstancePin] at member
    exact .inl member
  | @arc input output p at' found placed =>
    have here : d.pinCell input = some at' := by rw [Design.pinCell, found]; exact placed
    simp only [arcsOf, Arena.get?_modify] at member
    split at member
    · next same =>
      subst same
      rw [arcsOf]
      cases listed : d.instances.get? at' with
      | none => simp [listed] at member
      | some i =>
        simp only [listed, Option.map_some, Option.elim_some, List.mem_append,
          List.mem_singleton] at member
        rcases member with before | rfl
        · exact .inl before
        · exact .inr ⟨rfl, here⟩
    · exact .inl member
  | net name found =>
    rw [arcsOf, instances_addNet] at member
    exact .inl member
  | blockPin | markClock | shape | droppedArc | timing | path | capture => exact .inl member

theorem buildAll?_mem_arcsOf {steps : List BuildStep} {arc : PinId × PinId}
    (done : Design.empty.buildAll? steps = some d) (member : arc ∈ d.arcsOf inst) :
    .arc arc.1 arc.2 ∈ steps ∧ d.pinCell arc.1 = some inst := by
  refine buildAll?_induction (motive := fun d => ∀ arc inst, arc ∈ d.arcsOf inst →
    .arc arc.1 arc.2 ∈ steps ∧ d.pinCell arc.1 = some inst) ?_ ?_ done arc inst member
  · intro d step next listed earlier built arc inst member
    rcases built.mem_arcsOf member with before | ⟨rfl, placed⟩
    · obtain ⟨written, placed⟩ := earlier arc inst before
      exact ⟨written, built.pinCell placed⟩
    · exact ⟨listed, built.pinCell placed⟩
  · intro arc inst member
    simp [arcsOf, Design.empty] at member

/-! A stored path stays as it is, except that a capture path may be set for it. -/

theorem Built.paths {step : BuildStep} {path : PathId} {p : StoredPath} (built : d.Built step e)
    (found : d.paths.get? path = some p) :
    ∃ capture, e.paths.get? path = some { p with capture } := by
  have kept : ∃ capture, d.paths.get? path = some { p with capture } := ⟨p.capture, found⟩
  have old : path ≠ d.paths.nextId := by
    rintro rfl
    simp [get?_nextId] at found
  cases built with
  | corner name =>
    unfold addCorner
    split <;> exact kept
  | net name found => rwa [paths_addNet]
  | path point summary stages => rwa [addPath, Arena.get?_push, if_neg old]
  | @capture launch _ offset stages =>
    simp only [Arena.get?_modify, Arena.get?_push, if_neg old, found]
    by_cases same : launch = path
    · exact ⟨some ⟨d.paths.nextId, offset⟩, by rw [if_pos same]; rfl⟩
    · exact ⟨p.capture, if_neg same⟩
  | inst | sequential | pin | clockPin | blockPin | markClock | shape | droppedArc | arc | timing =>
    exact kept

theorem buildAll?_paths {steps : List BuildStep} {path : PathId} {p : StoredPath}
    (done : d.buildAll? steps = some e) (found : d.paths.get? path = some p) :
    ∃ capture, e.paths.get? path = some { p with capture } := by
  refine buildAll?_induction (motive := fun d => ∃ capture,
    d.paths.get? path = some { p with capture }) ?_ ⟨p.capture, found⟩ done
  rintro d step next - ⟨before, found⟩ built
  obtain ⟨after, found⟩ := built.paths found
  exact ⟨after, found⟩

end Design

end TimingExplorer
