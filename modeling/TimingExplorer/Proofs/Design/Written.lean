import TimingExplorer.Design.Load
import TimingExplorer.Proofs.Document.Records
import TimingExplorer.Proofs.Json.Writing

/-!
The written form of a design says all of it: a snapshot with finite numbers is read back from its
document and from its text, also where fields at any depth are left out that hold their default. For
each record there are three facts: it is read back, its reader bears with omissions, and its
document has a notation. The default of a number is positive zero; negative zero is not left out.
-/

namespace TimingExplorer

open Document Json

variable {printReal : Double → String}

/-- What an omission leaves was there before. -/
theorem writable_of_omits {outline : Outline} {v w : Value} (omits : Omits outline v w)
    (writable : Writable printReal v) : Writable printReal w := by
  induction omits with
  | field before after _ =>
    cases writable with
    | object each =>
      simp only [List.forall_mem_append, List.forall_mem_cons] at each
      exact .object (List.forall_mem_append.mpr ⟨each.1, each.2.2⟩)
  | inside before after _ _ ih =>
    cases writable with
    | object each =>
      simp only [List.forall_mem_append, List.forall_mem_cons] at each
      exact .object (List.forall_mem_append.mpr
        ⟨each.1, List.forall_mem_cons.mpr ⟨ih each.2.1, each.2.2⟩⟩)
  | item before after _ ih =>
    cases writable with
    | array each =>
      simp only [List.forall_mem_append, List.forall_mem_cons] at each
      exact .array (List.forall_mem_append.mpr
        ⟨each.1, List.forall_mem_cons.mpr ⟨ih each.2.1, each.2.2⟩⟩)

theorem writable_of_abridges {outline : Outline} {v w : Value} (abridges : Abridges outline v w)
    (writable : Writable printReal v) : Writable printReal w := by
  induction abridges with
  | refl => exact writable
  | tail _ omits ih => exact writable_of_omits omits ih

/-- A whole number that 64 bits can hold, one of them for the sign. -/
def IsInt64 (n : Int) : Prop := -0x8000000000000000 ≤ n ∧ n < 0x8000000000000000

theorem IsInt64.decode {n : Int} (stored : IsInt64 n) : Decoder.int64 (.integer n) = some n :=
  Decoder.int64_integer stored.1 stored.2

theorem IsInt64.writable {n : Int} (stored : IsInt64 n) : Writable printReal (.integer n) := by
  obtain ⟨low, high⟩ := stored
  exact .integer low (by omega)

theorem MinMax.decode_encode (m : MinMax) : decode m.encode = some m := by cases m <;> rfl

@[simp] theorem MinMax.decode_max : decode (.string "max") = some max := rfl

theorem PinDirection.decode_encode (d : PinDirection) : decode d.encode = some d := by
  cases d <;> rfl

namespace Rect

def coordinates (r : Rect) : List Int := [r.xLo, r.yLo, r.xHi, r.yHi]

theorem decode_encode {r : Rect} (stored : ∀ n ∈ r.coordinates, IsInt64 n) :
    decode r.encode = some r := by
  simp only [coordinates, List.forall_mem_cons] at stored
  obtain ⟨xLo, yLo, xHi, yHi, _⟩ := stored
  refine (Decoder.record_encode fieldNames (by decide) rfl).trans ?_
  simp [ofFields?, xLo.decode, yLo.decode, xHi.decode, yHi.decode]

theorem writable {r : Rect} (stored : ∀ n ∈ r.coordinates, IsInt64 n) :
    Writable printReal r.encode := by
  simp only [coordinates, List.forall_mem_cons] at stored
  obtain ⟨xLo, yLo, xHi, yHi, _⟩ := stored
  refine .object ?_
  simp [xLo.writable, yLo.writable, xHi.writable, yHi.writable]

end Rect

namespace Snapshot

namespace PinSpec

def coordinates (s : PinSpec) : List Int := s.shapes.flatMap Rect.coordinates

def outline : Outline := .record [("clock", .bool false), ("shapes", .array [])] []

theorem decode_encode {s : PinSpec} (stored : ∀ n ∈ s.coordinates, IsInt64 n) :
    decode s.encode = some s := by
  rw [coordinates, List.forall_mem_flatMap] at stored
  have shapes : Decoder.list Rect.decode (Encode.list Rect.encode s.shapes) = some s.shapes :=
    Decoder.list_encode fun r member => Rect.decode_encode (stored r member)
  refine (Decoder.record_encode fieldNames (by decide) rfl).trans ?_
  simp [ofFields?, PinDirection.decode_encode, shapes]

theorem writable {s : PinSpec} (stored : ∀ n ∈ s.coordinates, IsInt64 n) :
    Writable printReal s.encode := by
  rw [coordinates, List.forall_mem_flatMap] at stored
  have shapes : Writable printReal (Encode.list Rect.encode s.shapes) :=
    writable_list fun r member => Rect.writable (stored r member)
  refine .object ?_
  simp [Writable.string, Writable.bool, PinDirection.encode, shapes]

theorem tolerates : Decoder.Tolerates decode outline :=
  Decoder.tolerates_record fun _ _ omits =>
    (omits.required "name" (by simp) (by simp)).bind fun _ =>
    (omits.required "direction" (by simp) (by simp)).bind fun _ =>
    (omits.withDefault "clock" (by simp) (by simp)).bind fun _ =>
    (omits.withDefault "shapes" (by simp) (by simp)).bind fun _ => .refl _

end PinSpec

namespace InstanceSpec

def coordinates (s : InstanceSpec) : List Int := s.pins.flatMap PinSpec.coordinates

def outline : Outline :=
  .record [("sequential", .bool false), ("pins", .array []), ("arcs", .array [])]
    [("pins", .list PinSpec.outline)]

theorem decode_encode {s : InstanceSpec} (stored : ∀ n ∈ s.coordinates, IsInt64 n) :
    decode s.encode = some s := by
  rw [coordinates, List.forall_mem_flatMap] at stored
  have pins : Decoder.list PinSpec.decode (Encode.list PinSpec.encode s.pins) = some s.pins :=
    Decoder.list_encode fun pin member => PinSpec.decode_encode (stored pin member)
  have arcs : Decoder.list (Decoder.pair Decoder.string) (Encode.list encodeArc s.arcs) =
      some s.arcs := Decoder.list_encode fun _ _ => rfl
  refine (Decoder.record_encode fieldNames (by decide) rfl).trans ?_
  simp [ofFields?, pins, arcs]

theorem writable {s : InstanceSpec} (stored : ∀ n ∈ s.coordinates, IsInt64 n) :
    Writable printReal s.encode := by
  rw [coordinates, List.forall_mem_flatMap] at stored
  have pins : Writable printReal (Encode.list PinSpec.encode s.pins) :=
    writable_list fun pin member => PinSpec.writable (stored pin member)
  have arcs : Writable printReal (Encode.list encodeArc s.arcs) :=
    writable_list fun arc _ => .array (by simp [Writable.string])
  refine .object ?_
  simp [Writable.string, Writable.bool, pins, arcs]

theorem tolerates : Decoder.Tolerates decode outline :=
  Decoder.tolerates_record fun _ _ omits =>
    (omits.required "name" (by simp) (by simp)).bind fun _ =>
    (omits.required "master" (by simp) (by simp)).bind fun _ =>
    (omits.withDefault "sequential" (by simp) (by simp)).bind fun _ =>
    (omits.withDefault "pins" (by simp) (by simpa using PinSpec.tolerates.list)).bind fun _ =>
    (omits.withDefault "arcs" (by simp) (by simp)).bind fun _ => .refl _

end InstanceSpec

namespace NetSpec

theorem decode_encode (s : NetSpec) : decode s.encode = some s := by
  have pins : Decoder.list Decoder.string (Encode.list .string s.pins) = some s.pins :=
    Decoder.list_encode fun _ _ => rfl
  refine (Decoder.record_encode fieldNames (by decide) rfl).trans ?_
  simp [ofFields?, pins]

theorem writable (s : NetSpec) : Writable printReal s.encode := by
  have pins : Writable printReal (Encode.list .string s.pins) :=
    writable_list fun name _ => .string name
  refine .object ?_
  simp [Writable.string, pins]

end NetSpec

namespace TimingSpec

def reals (s : TimingSpec) : List Double := [s.arrival, s.slew, s.load] ++ s.slack.toList

def outline : Outline :=
  .record [("min_max", .string "max"), ("slew", .real 0), ("load", .real 0),
    ("rising", .bool false), ("slack", .null)] []

theorem decode_encode {s : TimingSpec} (finite : ∀ x ∈ s.reals, x.isFinite = true) :
    decode s.encode = some s := by
  simp only [reals, List.forall_mem_append, List.forall_mem_cons, Option.mem_toList] at finite
  obtain ⟨⟨arrival, slew, load, _⟩, slack⟩ := finite
  have slack' : Decoder.nullable Decoder.real (Encode.nullable Encode.real s.slack) =
      some s.slack :=
    Decoder.nullable_encode rfl fun x held => Decoder.real_encode (slack x held)
  refine (Decoder.record_encode fieldNames (by decide) rfl).trans ?_
  simp [ofFields?, MinMax.decode_encode, Decoder.real_encode arrival, Decoder.real_encode slew,
    Decoder.real_encode load, slack']

theorem writable {s : TimingSpec} (given : ∀ x ∈ s.reals, ReadsBack printReal x) :
    Writable printReal s.encode := by
  simp only [reals, List.forall_mem_append, List.forall_mem_cons, Option.mem_toList] at given
  obtain ⟨⟨arrival, slew, load, _⟩, slack⟩ := given
  have slack' : Writable printReal (Encode.nullable Encode.real s.slack) :=
    writable_nullable fun x held => writable_real (slack x held)
  refine .object ?_
  simp [Writable.string, Writable.bool, MinMax.encode, writable_real arrival, writable_real slew,
    writable_real load, slack']

theorem tolerates : Decoder.Tolerates decode outline :=
  Decoder.tolerates_record fun _ _ omits =>
    (omits.required "pin" (by simp) (by simp)).bind fun _ =>
    (omits.required "corner" (by simp) (by simp)).bind fun _ =>
    (omits.withDefault "min_max" (by simp) (by simp)).bind fun _ =>
    (omits.required "arrival" (by simp) (by simp)).bind fun _ =>
    (omits.withDefault "slew" (by simp) (by simp)).bind fun _ =>
    (omits.withDefault "load" (by simp) (by simp)).bind fun _ =>
    (omits.withDefault "rising" (by simp) (by simp)).bind fun _ =>
    (omits.withDefault "slack" (by simp) (by simp)).bind fun _ => .refl _

end TimingSpec

namespace StageSpec

def reals (s : StageSpec) : List Double := [s.arrival, s.delay, s.slew, s.load]

def outline : Outline :=
  .record [("clock", .null), ("rising", .bool false), ("delay", .real 0), ("slew", .real 0),
    ("load", .real 0)] []

theorem decode_encode {s : StageSpec} (finite : ∀ x ∈ s.reals, x.isFinite = true) :
    decode s.encode = some s := by
  simp only [reals, List.forall_mem_cons] at finite
  obtain ⟨arrival, delay, slew, load, _⟩ := finite
  have clock : Decoder.nullable Decoder.bool (Encode.nullable .bool s.clock) = some s.clock :=
    Decoder.nullable_encode rfl fun _ _ => rfl
  refine (Decoder.record_encode fieldNames (by decide) rfl).trans ?_
  simp [ofFields?, clock, Decoder.real_encode arrival, Decoder.real_encode delay,
    Decoder.real_encode slew, Decoder.real_encode load]

theorem writable {s : StageSpec} (given : ∀ x ∈ s.reals, ReadsBack printReal x) :
    Writable printReal s.encode := by
  simp only [reals, List.forall_mem_cons] at given
  obtain ⟨arrival, delay, slew, load, _⟩ := given
  have clock : Writable printReal (Encode.nullable .bool s.clock) :=
    writable_nullable fun b _ => .bool b
  refine .object ?_
  simp [Writable.string, Writable.bool, clock, writable_real arrival, writable_real delay,
    writable_real slew, writable_real load]

theorem tolerates : Decoder.Tolerates decode outline :=
  Decoder.tolerates_record fun _ _ omits =>
    (omits.required "pin" (by simp) (by simp)).bind fun _ =>
    (omits.withDefault "clock" (by simp) (by simp)).bind fun _ =>
    (omits.withDefault "rising" (by simp) (by simp)).bind fun _ =>
    (omits.required "arrival" (by simp) (by simp)).bind fun _ =>
    (omits.withDefault "delay" (by simp) (by simp)).bind fun _ =>
    (omits.withDefault "slew" (by simp) (by simp)).bind fun _ =>
    (omits.withDefault "load" (by simp) (by simp)).bind fun _ => .refl _

end StageSpec

namespace CaptureSpec

def reals (s : CaptureSpec) : List Double := s.offset :: s.stages.flatMap StageSpec.reals

def outline : Outline := .record [("offset", .real 0)] [("stages", .list StageSpec.outline)]

theorem decode_encode {s : CaptureSpec} (finite : ∀ x ∈ s.reals, x.isFinite = true) :
    decode s.encode = some s := by
  rw [reals, List.forall_mem_cons, List.forall_mem_flatMap] at finite
  obtain ⟨offset, inStages⟩ := finite
  have stages : Decoder.list StageSpec.decode (Encode.list StageSpec.encode s.stages) =
      some s.stages :=
    Decoder.list_encode fun stage member => StageSpec.decode_encode (inStages stage member)
  refine (Decoder.record_encode fieldNames (by decide) rfl).trans ?_
  simp [ofFields?, Decoder.real_encode offset, stages]

theorem writable {s : CaptureSpec} (given : ∀ x ∈ s.reals, ReadsBack printReal x) :
    Writable printReal s.encode := by
  rw [reals, List.forall_mem_cons, List.forall_mem_flatMap] at given
  obtain ⟨offset, inStages⟩ := given
  have stages : Writable printReal (Encode.list StageSpec.encode s.stages) :=
    writable_list fun stage member => StageSpec.writable (inStages stage member)
  refine .object ?_
  simp [writable_real offset, stages]

theorem tolerates : Decoder.Tolerates decode outline :=
  Decoder.tolerates_record fun _ _ omits =>
    (omits.withDefault "offset" (by simp) (by simp)).bind fun _ =>
    (omits.required "stages" (by simp) (by simpa using StageSpec.tolerates.list)).bind fun _ =>
    .refl _

end CaptureSpec

namespace PathSpec

def reals (s : PathSpec) : List Double :=
  [s.arrival, s.required] ++ s.slack.toList ++ s.pathDelay.toList ++
    s.stages.flatMap StageSpec.reals ++ s.capture.toList.flatMap CaptureSpec.reals

def outline : Outline :=
  .record [("min_max", .string "max"), ("start_clock", .null), ("end_clock", .null),
    ("slack", .null), ("arrival", .real 0), ("required", .real 0), ("path_delay", .null),
    ("capture", .null)]
    [("stages", .list StageSpec.outline), ("capture", CaptureSpec.outline)]

theorem decode_encode {s : PathSpec} (finite : ∀ x ∈ s.reals, x.isFinite = true) :
    decode s.encode = some s := by
  simp only [reals, List.forall_mem_append, List.forall_mem_cons, List.forall_mem_flatMap,
    Option.mem_toList] at finite
  obtain ⟨⟨⟨⟨⟨arrival, required, _⟩, slack⟩, pathDelay⟩, inStages⟩, inCapture⟩ := finite
  have clock (name? : Option String) :
      Decoder.nullable Decoder.string (Encode.nullable .string name?) = some name? :=
    Decoder.nullable_encode rfl fun _ _ => rfl
  have slack' : Decoder.nullable Decoder.real (Encode.nullable Encode.real s.slack) =
      some s.slack :=
    Decoder.nullable_encode rfl fun x held => Decoder.real_encode (slack x held)
  have pathDelay' : Decoder.nullable Decoder.real (Encode.nullable Encode.real s.pathDelay) =
      some s.pathDelay :=
    Decoder.nullable_encode rfl fun x held => Decoder.real_encode (pathDelay x held)
  have stages : Decoder.list StageSpec.decode (Encode.list StageSpec.encode s.stages) =
      some s.stages :=
    Decoder.list_encode fun stage member => StageSpec.decode_encode (inStages stage member)
  have capture : Decoder.nullable CaptureSpec.decode
      (Encode.nullable CaptureSpec.encode s.capture) = some s.capture :=
    Decoder.nullable_encode rfl fun c held => CaptureSpec.decode_encode (inCapture c held)
  refine (Decoder.record_encode fieldNames (by decide) rfl).trans ?_
  simp [ofFields?, MinMax.decode_encode, clock, slack', Decoder.real_encode arrival,
    Decoder.real_encode required, pathDelay', stages, capture]

theorem writable {s : PathSpec} (given : ∀ x ∈ s.reals, ReadsBack printReal x) :
    Writable printReal s.encode := by
  simp only [reals, List.forall_mem_append, List.forall_mem_cons, List.forall_mem_flatMap,
    Option.mem_toList] at given
  obtain ⟨⟨⟨⟨⟨arrival, required, _⟩, slack⟩, pathDelay⟩, inStages⟩, inCapture⟩ := given
  have clock (name? : Option String) : Writable printReal (Encode.nullable .string name?) :=
    writable_nullable fun name _ => .string name
  have slack' : Writable printReal (Encode.nullable Encode.real s.slack) :=
    writable_nullable fun x held => writable_real (slack x held)
  have pathDelay' : Writable printReal (Encode.nullable Encode.real s.pathDelay) :=
    writable_nullable fun x held => writable_real (pathDelay x held)
  have stages : Writable printReal (Encode.list StageSpec.encode s.stages) :=
    writable_list fun stage member => StageSpec.writable (inStages stage member)
  have capture : Writable printReal (Encode.nullable CaptureSpec.encode s.capture) :=
    writable_nullable fun c held => CaptureSpec.writable (inCapture c held)
  refine .object ?_
  simp [Writable.string, MinMax.encode, clock, slack', writable_real arrival,
    writable_real required, pathDelay', stages, capture]

theorem tolerates : Decoder.Tolerates decode outline :=
  Decoder.tolerates_record fun _ _ omits =>
    (omits.required "corner" (by simp) (by simp)).bind fun _ =>
    (omits.withDefault "min_max" (by simp) (by simp)).bind fun _ =>
    (omits.withDefault "start_clock" (by simp) (by simp)).bind fun _ =>
    (omits.withDefault "end_clock" (by simp) (by simp)).bind fun _ =>
    (omits.withDefault "slack" (by simp) (by simp)).bind fun _ =>
    (omits.withDefault "arrival" (by simp) (by simp)).bind fun _ =>
    (omits.withDefault "required" (by simp) (by simp)).bind fun _ =>
    (omits.withDefault "path_delay" (by simp) (by simp)).bind fun _ =>
    (omits.required "stages" (by simp) (by simpa using StageSpec.tolerates.list)).bind fun _ =>
    (omits.withDefault "capture" (by simp)
      (by simpa using CaptureSpec.tolerates.nullable)).bind fun _ => .refl _

end PathSpec

def coordinates (s : Snapshot) : List Int :=
  s.instances.flatMap InstanceSpec.coordinates ++ s.blockPins.flatMap PinSpec.coordinates

def reals (s : Snapshot) : List Double :=
  s.timing.flatMap TimingSpec.reals ++ s.paths.flatMap PathSpec.reals

/-- Every section may be left out where it is empty. -/
def outline : Outline :=
  .record [("corners", .array []), ("instances", .array []), ("ports", .array []),
    ("nets", .array []), ("timing", .array []), ("paths", .array [])]
    [("instances", .list InstanceSpec.outline), ("ports", .list PinSpec.outline),
      ("timing", .list TimingSpec.outline), ("paths", .list PathSpec.outline)]

theorem decode_encode {s : Snapshot} (finite : ∀ x ∈ s.reals, x.isFinite = true)
    (stored : ∀ n ∈ s.coordinates, IsInt64 n) : decode s.encode = some s := by
  simp only [reals, List.forall_mem_append, List.forall_mem_flatMap] at finite
  simp only [coordinates, List.forall_mem_append, List.forall_mem_flatMap] at stored
  obtain ⟨inTiming, inPaths⟩ := finite
  obtain ⟨inInstances, inPins⟩ := stored
  have corners : Decoder.list Decoder.string (Encode.list .string s.corners) = some s.corners :=
    Decoder.list_encode fun _ _ => rfl
  have instances : Decoder.list InstanceSpec.decode (Encode.list InstanceSpec.encode s.instances) =
      some s.instances :=
    Decoder.list_encode fun spec member => InstanceSpec.decode_encode (inInstances spec member)
  have pins : Decoder.list PinSpec.decode (Encode.list PinSpec.encode s.blockPins) =
      some s.blockPins :=
    Decoder.list_encode fun spec member => PinSpec.decode_encode (inPins spec member)
  have nets : Decoder.list NetSpec.decode (Encode.list NetSpec.encode s.nets) = some s.nets :=
    Decoder.list_encode fun spec _ => spec.decode_encode
  have timing : Decoder.list TimingSpec.decode (Encode.list TimingSpec.encode s.timing) =
      some s.timing :=
    Decoder.list_encode fun spec member => TimingSpec.decode_encode (inTiming spec member)
  have paths : Decoder.list PathSpec.decode (Encode.list PathSpec.encode s.paths) =
      some s.paths :=
    Decoder.list_encode fun spec member => PathSpec.decode_encode (inPaths spec member)
  refine (Decoder.record_encode fieldNames (by decide) rfl).trans ?_
  simp [ofFields?, corners, instances, pins, nets, timing, paths]

theorem writable {s : Snapshot} (given : ∀ x ∈ s.reals, ReadsBack printReal x)
    (stored : ∀ n ∈ s.coordinates, IsInt64 n) : Writable printReal s.encode := by
  simp only [reals, List.forall_mem_append, List.forall_mem_flatMap] at given
  simp only [coordinates, List.forall_mem_append, List.forall_mem_flatMap] at stored
  obtain ⟨inTiming, inPaths⟩ := given
  obtain ⟨inInstances, inPins⟩ := stored
  have corners : Writable printReal (Encode.list .string s.corners) :=
    writable_list fun name _ => .string name
  have instances : Writable printReal (Encode.list InstanceSpec.encode s.instances) :=
    writable_list fun spec member => InstanceSpec.writable (inInstances spec member)
  have pins : Writable printReal (Encode.list PinSpec.encode s.blockPins) :=
    writable_list fun spec member => PinSpec.writable (inPins spec member)
  have nets : Writable printReal (Encode.list NetSpec.encode s.nets) :=
    writable_list fun spec _ => spec.writable
  have timing : Writable printReal (Encode.list TimingSpec.encode s.timing) :=
    writable_list fun spec member => TimingSpec.writable (inTiming spec member)
  have paths : Writable printReal (Encode.list PathSpec.encode s.paths) :=
    writable_list fun spec member => PathSpec.writable (inPaths spec member)
  refine .object ?_
  simp [corners, instances, pins, nets, timing, paths]

theorem tolerates : Decoder.Tolerates decode outline :=
  Decoder.tolerates_record fun _ _ omits =>
    (omits.withDefault "corners" (by simp) (by simp)).bind fun _ =>
    (omits.withDefault "instances" (by simp)
      (by simpa using InstanceSpec.tolerates.list)).bind fun _ =>
    (omits.withDefault "ports" (by simp) (by simpa using PinSpec.tolerates.list)).bind fun _ =>
    (omits.withDefault "nets" (by simp) (by simp)).bind fun _ =>
    (omits.withDefault "timing" (by simp)
      (by simpa using TimingSpec.tolerates.list)).bind fun _ =>
    (omits.withDefault "paths" (by simp)
      (by simpa using PathSpec.tolerates.list)).bind fun _ => .refl _

/-- A document says what a snapshot says, and so does its text if that gives back each double of the
snapshot. -/
structure WrittenAs (s : Snapshot) (w : Value) : Prop where
  decode : decode w = some s
  text : ∀ printReal, (∀ x ∈ s.reals, ReadsBack printReal x) →
    (read? (render printReal w)).bind Snapshot.decode = some s ∧
      Design.ofText (render printReal w) = (Design.ofSnapshot s).mapError .invalid

theorem writtenAs_of_abridges {s : Snapshot} (finite : ∀ x ∈ s.reals, x.isFinite = true)
    (stored : ∀ n ∈ s.coordinates, IsInt64 n) {w : Value} (abridged : Abridges outline s.encode w) :
    s.WrittenAs w := by
  have decoded : decode w = some s := tolerates.abridged abridged s (decode_encode finite stored)
  refine ⟨decoded, fun printReal given => ?_⟩
  have read : (read? (render printReal w)).bind decode = some s := by
    rw [read?_render (writable_of_abridges abridged (writable given stored)), Option.bind_some,
      decoded]
  refine ⟨read, ?_⟩
  rw [Design.ofText, read]
  dsimp only
  cases Design.ofSnapshot s <;> rfl

/-- A snapshot with finite numbers is read back from its document, whole or with any fields left out
that hold their default. Where the reader gives back its doubles as they are printed, the text of
that document gives the same design as the snapshot. -/
theorem writtenAs_abridged {s : Snapshot} (finite : ∀ x ∈ s.reals, x.isFinite = true)
    (stored : ∀ n ∈ s.coordinates, IsInt64 n) :
    s.WrittenAs s.encode ∧ ∀ w, Abridges outline s.encode w → s.WrittenAs w :=
  ⟨writtenAs_of_abridges finite stored .refl, fun _ => writtenAs_of_abridges finite stored⟩

/-- An input with a shape and a timing. -/
def timedPin : Snapshot where
  corners := ["typ"]
  blockPins := [{ name := "a", direction := .input, shapes := [⟨-1, 0, 1, 2⟩] }]
  timing := [{ pin := "a", corner := "typ", arrival := 0.5 }]

/-- Its document without the clock flag of the pin, the slew and the paths. -/
def timedPinInBrief : Value :=
  .object [
    ("corners", .array [.string "typ"]), ("instances", .array []),
    ("ports", .array [.object [
      ("name", .string "a"), ("direction", .string "input"),
      ("shapes", .array [.object [
        ("x_lo", .integer (-1)), ("y_lo", .integer 0), ("x_hi", .integer 1),
        ("y_hi", .integer 2)]])]]),
    ("nets", .array []),
    ("timing", .array [.object [
      ("pin", .string "a"), ("corner", .string "typ"), ("min_max", .string "max"),
      ("arrival", .real 0.5), ("load", .real 0), ("rising", .bool false), ("slack", .null)]])]

theorem abridges_timedPin : Abridges outline timedPin.encode timedPinInBrief := by
  have clock (name direction shapes : String × Value) :
      Omits PinSpec.outline (.object [name, direction, ("clock", .bool false), shapes])
        (.object [name, direction, shapes]) := .field [name, direction] [shapes] (by simp)
  have slew (pin corner minMax arrival load rising slack : String × Value) :
      Omits TimingSpec.outline
        (.object [pin, corner, minMax, arrival, ("slew", .real 0), load, rising, slack])
        (.object [pin, corner, minMax, arrival, load, rising, slack]) :=
    .field [pin, corner, minMax, arrival] [load, rising, slack] (by simp)
  refine .head (.inside [_, _] _ (by simp) (.item [] [] (clock ..))) ?_
  refine .head (.inside [_, _, _, _] _ (by simp) (.item [] [] (slew ..))) ?_
  exact .single (.field [_, _, _, _, _] [] (by simp [Encode.list, timedPin]))

/-- Prints the two doubles of the example. -/
def printHalf (x : Double) : String := if x.bits = 0 then "0.0" else "0.5"

theorem readsBack_printHalf : ∀ x ∈ timedPin.reals, ReadsBack printHalf x := by
  have zero : ReadsBack printHalf 0 := Numeral.read?_tenths (by decide : 0 < 10)
  have half : ReadsBack printHalf 0.5 := Numeral.read?_tenths (by decide : 5 < 10)
  simp [reals, TimingSpec.reals, timedPin, zero, half]

theorem writtenAs_abridged_timedPin :
    decode timedPinInBrief = some timedPin ∧
      Design.ofText (render printHalf timedPinInBrief) =
        (Design.ofSnapshot timedPin).mapError .invalid := by
  have finite : ∀ x ∈ timedPin.reals, x.isFinite = true := by decide
  have stored : ∀ n ∈ timedPin.coordinates, IsInt64 n := by
    simp [coordinates, timedPin, PinSpec.coordinates, Rect.coordinates, IsInt64]
  have said := (writtenAs_abridged finite stored).2 timedPinInBrief abridges_timedPin
  exact ⟨said.decode, (said.text printHalf readsBack_printHalf).2⟩

/-- An input with an arrival, its other values left as they are by default. -/
def arriving (arrival : Double) : Snapshot where
  corners := ["typ"]
  blockPins := [{ name := "a", direction := .input }]
  timing := [{ pin := "a", corner := "typ", arrival }]

/-- The double that is nearest to 0.013000000000000001, and the one before it, which is nearest to
0.013. -/
def awkward : Double := ⟨0x3f8a9fbe76c8b43a⟩

def beforeAwkward : Double := ⟨0x3f8a9fbe76c8b439⟩

/-- Prints zero and the first of these two exactly. -/
def printAwkward (x : Double) : String := if x.bits = 0 then "0.0" else "0.013000000000000001"

/-- The numeral that it prints. -/
def awkwardNumeral : Numeral where
  negative := false
  whole := [0]
  fraction := some [0, 1, 3, 0, 0, 0, 0, 0, 0, 0, 0, 0, 0, 0, 0, 0, 0, 1]
  exponent := none

theorem printsExactly_awkward : ∀ x ∈ (arriving awkward).reals, PrintsExactly printAwkward x := by
  have zero : PrintsExactly printAwkward 0 :=
    ⟨⟨false, [0], some [0], none⟩, by decide, by decide, Double.roundsDecimal_zero _⟩
  have nearest : Double.RoundsDecimal 13000000000000001 (-18) awkward := by
    refine Double.Between.rounds ?_
    decide +kernel
  have other : PrintsExactly printAwkward awkward :=
    ⟨awkwardNumeral, by decide, by decide, nearest⟩
  simp [reals, TimingSpec.reals, arriving, zero, other]

/-- The reader takes that numeral for the double before. -/
theorem readsBack_beforeAwkward :
    ∀ x ∈ (arriving beforeAwkward).reals, ReadsBack printAwkward x := by
  have zero : ReadsBack printAwkward 0 := Numeral.read?_tenths (by decide : 0 < 10)
  have parsed : Numeral.ofChars? (printAwkward beforeAwkward).toList = some awkwardNumeral := by
    decide
  have real : awkwardNumeral.real? = some beforeAwkward := by decide +kernel
  have other : ReadsBack printAwkward beforeAwkward := by
    rw [ReadsBack, Numeral.read?, parsed, Option.map_some, Numeral.value, real]
    rfl
  simp [reals, TimingSpec.reals, arriving, zero, other]

/-- The text of a document does not always say what the document says, even where every double is
finite and its text denotes it: here the reader takes another double for it. -/
theorem not_text_awkward :
    (∀ x ∈ (arriving awkward).reals, x.isFinite = true) ∧
      (∀ n ∈ (arriving awkward).coordinates, IsInt64 n) ∧
      (∀ x ∈ (arriving awkward).reals, PrintsExactly printAwkward x) ∧
      (read? (render printAwkward (arriving awkward).encode)).bind decode ≠
        some (arriving awkward) ∧
      Design.ofText (render printAwkward (arriving awkward).encode) ≠
        (Design.ofSnapshot (arriving awkward)).mapError .invalid := by
  have stored (x : Double) : ∀ n ∈ (arriving x).coordinates, IsInt64 n := by
    simp [coordinates, arriving, PinSpec.coordinates]
  -- Both doubles have this text, so what is read is the other snapshot.
  have alike : render printAwkward (arriving awkward).encode =
      render printAwkward (arriving beforeAwkward).encode := congrArg String.ofList rfl
  have finite : ∀ x ∈ (arriving beforeAwkward).reals, x.isFinite = true := by decide
  obtain ⟨read, loaded⟩ := (writtenAs_of_abridges finite (stored _) .refl).text printAwkward
    readsBack_beforeAwkward
  refine ⟨by decide, stored _, printsExactly_awkward, ?_, ?_⟩
  · rw [alike, read]
    exact fun same => absurd (congrArg (Option.map (·.timing.map (·.arrival))) same) (by decide)
  · rw [alike, loaded]
    exact fun same => absurd (congrArg (fun made => made.toOption.bind fun d =>
      (d.pinTiming ⟨0⟩ ⟨⟨0⟩, .max⟩).map (·.arrival)) same) (by decide +kernel)

end Snapshot

end TimingExplorer
