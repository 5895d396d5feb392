import TimingExplorer.Proofs.Cone.Duality

/-!
What a design stores twice stays in step while it is built: the net of a pin and the members of a
net, the instance of a pin and the pins of an instance, the terminal of a pin and the pin of a
terminal. No list ever holds a pin twice.
-/
namespace TimingExplorer

/-- Of several equal items the first stays. -/
theorem eraseDups_snoc {α : Type} [DecidableEq α] (xs : List α) (x : α) :
    (xs ++ [x]).eraseDups = if x ∈ xs then xs.eraseDups else xs.eraseDups ++ [x] := by
  rw [List.eraseDups_append]
  by_cases listed : x ∈ xs <;> simp [List.removeAll, listed, List.eraseDups_cons]

theorem nodup_eraseDups {α : Type} [DecidableEq α] (xs : List α) : xs.eraseDups.Nodup := by
  induction xs using List.reverseRecOn with
  | nil => exact List.nodup_nil
  | append_singleton xs x ih =>
    rw [eraseDups_snoc]
    split
    · exact ih
    · next new =>
      exact List.nodup_append.mpr ⟨ih, List.nodup_singleton x, fun a listed b last same =>
        new (List.mem_eraseDups.mp (List.mem_singleton.mp last ▸ same ▸ listed))⟩

namespace Design

variable {d e : Design} {pin : PinId} {net : NetId} {inst : InstanceId} {t : Terminal} {p : Pin}

/-! Lists without repetition. -/

/-- No net and no instance lists a pin twice. -/
structure Unrepeated (d : Design) : Prop where
  members : ∀ net, (d.members net).Nodup
  cellPins : ∀ inst, (d.cellPins inst).Nodup

theorem Unrepeated.empty : Design.empty.Unrepeated where
  members net := by simp [Design.members, Design.empty]
  cellPins inst := by simp [Design.cellPins, Design.empty]

theorem Unrepeated.of_eq (once : d.Unrepeated) (nets : e.members = d.members)
    (cells : e.cellPins = d.cellPins) : e.Unrepeated where
  members net := by rw [nets]; exact once.members net
  cellPins inst := by rw [cells]; exact once.cellPins inst

theorem cellPins_modify (f : Instance → Instance) (keeps : ∀ i, (f i).pins = i.pins) :
    ({ d with instances := d.instances.modify inst f } : Design).cellPins = d.cellPins :=
  funext fun _ => elim_get?_modify _ _ _ _ _ _ keeps

theorem cellPins_addInstance (name master : String) :
    (d.addInstance name master).2.cellPins = d.cellPins := by
  funext inst
  simp only [cellPins, addInstance, Arena.get?_push]
  split
  · next fresh => rw [fresh, get?_nextId]; rfl
  · rfl

theorem cellPins_addInstancePin (instName name : String) (direction : PinDirection)
    {at' : InstanceId} : (d.addInstancePin inst instName name direction).2.cellPins at' =
      if inst = at' then (d.instances.get? at').elim [] fun i => i.pins ++ [d.pins.nextId]
      else d.cellPins at' := by
  simp only [cellPins, addInstancePin, Arena.get?_modify]
  split
  · cases d.instances.get? at' <;> rfl
  · rfl

theorem Unrepeated.addInstancePin (once : d.Unrepeated) (wired : d.Wired)
    (instName name : String) (direction : PinDirection) :
    (d.addInstancePin inst instName name direction).2.Unrepeated where
  members := once.members
  cellPins at' := by
    have unlisted : d.pins.nextId ∉ d.cellPins at' := by
      simp [wired.mem_cellPins, pinCell, get?_nextId]
    have before := once.cellPins at'
    rw [cellPins_addInstancePin]
    split
    · unfold Design.cellPins at unlisted before
      cases found : d.instances.get? at' with
      | none => exact List.nodup_nil
      | some i =>
        rw [found] at unlisted before
        exact List.nodup_append.mpr ⟨before, List.nodup_singleton _,
          fun a listed b fresh => by
            rintro rfl
            exact unlisted (List.mem_singleton.mp fresh ▸ listed)⟩
    · exact before

theorem Unrepeated.addNet {pins : List PinId} (once : d.Unrepeated) (wired : d.Wired)
    (found : ∀ pin ∈ pins, d.pins.contains pin = true) (name : String) :
    (d.addNet name pins).2.Unrepeated where
  members net := by
    rw [members_addNet found fun pin net => (wired.mem_members pin net).mp]
    split
    · exact nodup_eraseDups pins
    · exact (once.members net).filter _
  cellPins inst := by
    rw [Design.cellPins, instances_addNet]
    exact once.cellPins inst

theorem Unrepeated.built {step : BuildStep} (once : d.Unrepeated) (wired : d.Wired)
    (built : d.Built step e) : e.Unrepeated := by
  cases built with
  | corner name =>
    unfold addCorner
    split
    · exact once
    · exact once.of_eq rfl rfl
  | inst name master => exact once.of_eq rfl (cellPins_addInstance name master)
  | sequential inst => exact once.of_eq rfl (cellPins_modify _ fun _ => rfl)
  | pin name direction found => exact once.addInstancePin wired _ name direction
  | @clockPin _ name i found =>
    exact (once.addInstancePin wired i.name name .input).of_eq rfl rfl
  | arc output found placed => exact once.of_eq rfl (cellPins_modify _ fun _ => rfl)
  | net name found => exact once.addNet wired found name
  | droppedArc => exact once
  | blockPin | markClock | shape | timing | path | capture => exact once.of_eq rfl rfl

/-! The two identities of a pin. -/

/-- Where a pin is: its terminal and its instance. -/
def place (d : Design) (pin : PinId) : Option (Terminal × Option InstanceId) :=
  (d.pins.get? pin).map fun p => (p.terminal, p.inst)

/-- Pins and terminals lead to each other, and the pins of instances are those with an instance
terminal. -/
structure Mapped (d : Design) : Prop where
  terminal_iff : ∀ pin t, (d.place pin).map Prod.fst = some t ↔ d.timingPin t = some pin
  kind : ∀ pin t cell, d.place pin = some (t, cell) → t.isInstance = cell.isSome

theorem Mapped.empty : Design.empty.Mapped where
  terminal_iff pin t := by cases t <;> simp [place, timingPin, Design.empty]
  kind pin t cell known := by simp [place, Design.empty] at known

theorem Mapped.of_eq (mapped : d.Mapped) (places : e.place = d.place)
    (pins : e.timingPin = d.timingPin) : e.Mapped where
  terminal_iff pin t := by rw [places, pins]; exact mapped.terminal_iff pin t
  kind pin t cell := by rw [places]; exact mapped.kind pin t cell

/-- A new pin with a new terminal. -/
theorem Mapped.extend (mapped : d.Mapped) (unused : d.timingPin p.terminal = none)
    (kind : p.terminal.isInstance = p.inst.isSome)
    (places : ∀ pin, e.place pin =
      if pin = d.pins.nextId then some (p.terminal, p.inst) else d.place pin)
    (pins : ∀ t, e.timingPin t =
      if t = p.terminal then some d.pins.nextId else d.timingPin t) : e.Mapped where
  terminal_iff pin t := by
    have unknown : d.timingPin t ≠ some d.pins.nextId := by
      rw [ne_eq, ← mapped.terminal_iff]
      simp [place, get?_nextId]
    rw [places, pins]
    by_cases fresh : pin = d.pins.nextId <;> by_cases same : t = p.terminal
    · simp [fresh, same]
    · simp [fresh, same, unknown, eq_comm]
    · simp [fresh, same, mapped.terminal_iff, unused, eq_comm]
    · simp [fresh, same, mapped.terminal_iff]
  kind pin t cell known := by
    rw [places] at known
    split at known
    · obtain ⟨rfl, rfl⟩ := Prod.mk.inj (Option.some.inj known)
      exact kind
    · exact mapped.kind pin t cell known

theorem place_push (places : e.pins = d.pins.push p) : e.place pin =
    if pin = d.pins.nextId then some (p.terminal, p.inst) else d.place pin := by
  rw [place, places, Arena.get?_push]
  split <;> rfl

theorem Mapped.addInstancePin (mapped : d.Mapped) (instName name : String)
    (direction : PinDirection) :
    (d.addInstancePin inst instName name direction).2.Mapped := by
  let terminal : Terminal := .ofInstance d.instanceTerminals.nextId
  have unused : d.timingPin terminal = none := get?_nextId d.instanceTerminals
  refine mapped.extend (p := { name, inst := some inst, terminal, direction }) unused rfl
    (fun _ => place_push rfl) fun t => ?_
  cases t with
  | ofInstance id => simp [timingPin, Design.addInstancePin, Arena.get?_push, terminal]
  | ofBlock id => simp [timingPin, Design.addInstancePin, terminal]

theorem Mapped.addBlockPin (mapped : d.Mapped) (name : String) (direction : PinDirection) :
    (d.addBlockPin name direction).2.Mapped := by
  let terminal : Terminal := .ofBlock d.blockTerminals.nextId
  have unused : d.timingPin terminal = none := get?_nextId d.blockTerminals
  refine mapped.extend (p := { name, inst := none, terminal, direction }) unused rfl
    (fun _ => place_push rfl) fun t => ?_
  cases t with
  | ofInstance id => simp [timingPin, Design.addBlockPin, terminal]
  | ofBlock id => simp [timingPin, Design.addBlockPin, Arena.get?_push, terminal]

/-- A change to a pin that leaves alone what a view shows. -/
theorem map_get?_modify {kind : IdKind} {α β : Type} (a : Arena kind α) (id at' : Id kind)
    (f : α → α) (view : α → β) (keeps : ∀ x, view (f x) = view x) :
    ((a.modify id f).get? at').map view = (a.get? at').map view := by
  rw [Arena.get?_modify]
  cases a.get? at' <;> split <;> simp [keeps]

/-- Moving pins to a net changes the nets and what the pins say of theirs, and nothing else. -/
theorem exists_attachAll (d : Design) (net : NetId) (moved : List PinId) : ∃ nets pins,
    moved.foldl (attach · net) d = { d with nets, pins } ∧ pins.size = d.pins.size ∧
      (∀ other, (nets.get? other).map (·.name) = (d.nets.get? other).map (·.name)) ∧
      ∀ {α : Type} (view : Pin → α), (∀ p at', view { p with net := at' } = view p) →
        ∀ pin, (pins.get? pin).map view = (d.pins.get? pin).map view := by
  induction moved generalizing d with
  | nil => exact ⟨d.nets, d.pins, rfl, rfl, fun _ => rfl, fun _ _ _ => rfl⟩
  | cons first rest ih =>
    obtain ⟨nets, pins, result, size, names, views⟩ := ih (d.attach net first)
    refine ⟨nets, pins, result.trans rfl, size.trans (Arena.size_modify _ _ _), ?_, ?_⟩
    · intro other
      rw [names, Design.attach]
      cases d.pinNet first with
      | none => rfl
      | some old => exact map_get?_modify d.nets old other _ _ fun _ => rfl
    · intro α view keeps pin
      rw [views view keeps, pins_attach]
      exact map_get?_modify d.pins first pin _ view fun p => keeps p _

theorem Mapped.addNet (mapped : d.Mapped) (name : String) (pins : List PinId) :
    (d.addNet name pins).2.Mapped := by
  obtain ⟨nets, cells, result, _, _, views⟩ := exists_attachAll d d.nets.nextId pins.eraseDups
  simp only [Design.addNet, result]
  exact mapped.of_eq (funext fun pin => views _ (fun _ _ => rfl) pin) rfl

theorem Mapped.modifyPin (mapped : d.Mapped) (f : Pin → Pin)
    (keeps : ∀ p, ((f p).terminal, (f p).inst) = (p.terminal, p.inst)) :
    ({ d with pins := d.pins.modify pin f } : Design).Mapped :=
  mapped.of_eq (funext fun at' => map_get?_modify d.pins pin at' f _ keeps) rfl

theorem Mapped.built {step : BuildStep} (mapped : d.Mapped) (built : d.Built step e) :
    e.Mapped := by
  cases built with
  | corner name =>
    unfold addCorner
    split
    · exact mapped
    · exact mapped.of_eq rfl rfl
  | pin name direction found => exact mapped.addInstancePin _ name direction
  | clockPin name found => exact (mapped.addInstancePin _ name .input).modifyPin _ fun _ => rfl
  | blockPin name direction => exact mapped.addBlockPin name direction
  | markClock pin => exact mapped.modifyPin _ fun _ => rfl
  | shape pin shape => exact mapped.modifyPin _ fun _ => rfl
  | net name found => exact mapped.addNet name _
  | droppedArc => exact mapped
  | inst | sequential | arc | timing | path | capture => exact mapped.of_eq rfl rfl

/-! What holds of every built design. -/

theorem Pin.drives_or_receives (p : Pin) : p.drives = true ∨ p.receives = true := by
  unfold Pin.drives Pin.receives
  cases p.direction <;> cases p.inst <;> simp

theorem Wired.mem_drivers_or_loads (wired : d.Wired) (attached : d.pinNet pin = some net) :
    pin ∈ d.netDrivers net ∨ pin ∈ d.netLoads net := by
  have listed := (wired.mem_members pin net).mpr attached
  obtain ⟨p, found, _⟩ := Option.bind_eq_some_iff.mp attached
  rcases p.drives_or_receives with drives | receives
  · exact .inl (mem_netPins.mpr ⟨listed, by rw [found]; exact drives⟩)
  · exact .inr (mem_netPins.mpr ⟨listed, by rw [found]; exact receives⟩)

theorem Mapped.exists_terminal (mapped : d.Mapped) (known : d.pins.contains pin = true) :
    ∃ t, d.database.terminal pin = some t ∧ t.isInstance = (d.pinCell pin).isSome := by
  rw [← Arena.isSome_get?, Option.isSome_iff_exists] at known
  obtain ⟨p, found⟩ := known
  refine ⟨p.terminal, congrArg (Option.map _) found, ?_⟩
  rw [pinCell, found]
  exact mapped.kind pin p.terminal p.inst (congrArg (Option.map _) found)

theorem tables_of_buildAll? {steps : List BuildStep}
    (done : Design.empty.buildAll? steps = some d) : d.Wired ∧ d.Unrepeated ∧ d.Mapped := by
  refine buildAll?_induction (motive := fun d => d.Wired ∧ d.Unrepeated ∧ d.Mapped)
    ?_ ⟨.empty, .empty, .empty⟩ done
  rintro d step next - ⟨wired, once, mapped⟩ built
  exact ⟨wired.built built, once.built wired built, mapped.built built⟩

/-- However a design is built, its tables tell one story. -/
theorem tables_agree {steps : List BuildStep} (done : Design.empty.buildAll? steps = some d) :
    (∀ pin net, d.pinNet pin = some net ↔ pin ∈ d.members net) ∧
    (∀ net, (d.members net).Nodup) ∧
    (∀ pin net, d.pinNet pin = some net → pin ∈ d.netDrivers net ∨ pin ∈ d.netLoads net) ∧
    (∀ pin inst, d.pinCell pin = some inst →
      (d.cellPins inst).count pin = 1 ∧ ∀ other, pin ∈ d.cellPins other → other = inst) ∧
    (∀ pin, d.pinCell pin = none → ∀ inst, pin ∉ d.cellPins inst) ∧
    (∀ pin t, d.database.terminal pin = some t ↔ d.database.timingPin t = some pin) ∧
    ∀ pin, d.pins.contains pin = true → ∃ t, d.database.terminal pin = some t ∧
      (t.isInstance = true ↔ ∃ inst, d.pinCell pin = some inst) ∧
      (t.isBlock = true ↔ d.pinCell pin = none) := by
  obtain ⟨wired, once, mapped⟩ := tables_of_buildAll? done
  refine ⟨fun pin net => (wired.mem_members pin net).symm, once.members,
    fun _ _ => wired.mem_drivers_or_loads, ?_, ?_, fun pin t => ?_, ?_⟩
  · intro pin inst placed
    have listed := (wired.mem_cellPins pin inst).mpr placed
    refine ⟨List.count_eq_one_of_mem (once.cellPins inst) listed, fun other listed' => ?_⟩
    exact Option.some.inj (((wired.mem_cellPins pin other).mp listed').symm.trans placed)
  · intro pin free inst listed
    have placed := (wired.mem_cellPins pin inst).mp listed
    cases free.symm.trans placed
  · have same : (d.place pin).map Prod.fst = d.database.terminal pin := by
      simp [place, database, Function.comp_def]
    rw [← same]
    exact mapped.terminal_iff pin t
  · intro pin known
    obtain ⟨t, mapped, kind⟩ := mapped.exists_terminal known
    refine ⟨t, mapped, ?_, ?_⟩
    · rw [kind, Option.isSome_iff_exists]
    · rw [← Option.isNone_iff_eq_none, ← Option.not_isSome, ← kind]
      cases t <;> simp [Terminal.isBlock, Terminal.isInstance, Terminal.blockTerminal?,
        Terminal.instanceTerminal?]

/-- A net that lists a pin twice, and takes one from the net before it. -/
def takenOver : List BuildStep := [
  .inst "u" "BUF", .pin ⟨0⟩ "A" .input, .blockPin "in" .input, .clockPin ⟨0⟩ "CK",
  .net "first" [⟨1⟩, ⟨0⟩, ⟨2⟩], .net "second" [⟨0⟩, ⟨2⟩, ⟨0⟩]]

theorem tables_agree_takenOver : ∃ d, Design.empty.buildAll? takenOver = some d ∧
    d.members ⟨0⟩ = [⟨1⟩] ∧ d.members ⟨1⟩ = [⟨0⟩, ⟨2⟩] ∧
    (∀ pin net, d.pinNet pin = some net ↔ pin ∈ d.members net) := by
  obtain ⟨d, done⟩ : ∃ d, Design.empty.buildAll? takenOver = some d := ⟨_, rfl⟩
  refine ⟨d, done, ?_, ?_, (tables_agree done).1⟩
  · obtain rfl := Option.some.inj done
    decide +kernel
  · obtain rfl := Option.some.inj done
    decide +kernel

end Design

end TimingExplorer
