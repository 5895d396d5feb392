import TimingExplorer.Design
import TimingExplorer.Document.Entity

/-!
The written form of a design. Objects refer to each other by name: a pin of an instance by the
instance's name, a slash and its own, a pin of the block by its name. What is left out has a
default.
-/

namespace TimingExplorer

open Document

namespace PinDirection

def choices : List (String × PinDirection) :=
  [("input", input), ("output", output), ("inout", inout)]

def decode : Decoder PinDirection := Decoder.choice .json choices

def name : PinDirection → String
  | input => "input"
  | output => "output"
  | inout => "inout"

def encode (d : PinDirection) : Value := .string d.name

end PinDirection

namespace Snapshot

/-- A pin of an instance, or of the block. -/
structure PinSpec where
  name : String
  direction : PinDirection
  clock : Bool := false
  shapes : List Rect := []

namespace PinSpec

def fieldNames : List String := ["name", "direction", "clock", "shapes"]

def ofFields? (r : Fields) : Option PinSpec := do
  return {
    name := ← r.required "name" Decoder.string
    direction := ← r.required "direction" PinDirection.decode
    clock := ← r.withDefault "clock" false Decoder.bool
    shapes := ← r.withDefault "shapes" [] (Decoder.list Rect.decode) }

def decode : Decoder PinSpec := fun v =>
  (Fields.ofValue? .json fieldNames v).bind ofFields?

def encode (s : PinSpec) : Value :=
  .object [
    ("name", .string s.name), ("direction", s.direction.encode), ("clock", .bool s.clock),
    ("shapes", Encode.list Rect.encode s.shapes)]

end PinSpec

/-- An instance; its arcs are written with the names of its pins. -/
structure InstanceSpec where
  name : String
  master : String
  sequential : Bool := false
  pins : List PinSpec := []
  arcs : List (String × String) := []

namespace InstanceSpec

def fieldNames : List String := ["name", "master", "sequential", "pins", "arcs"]

def ofFields? (r : Fields) : Option InstanceSpec := do
  return {
    name := ← r.required "name" Decoder.string
    master := ← r.required "master" Decoder.string
    sequential := ← r.withDefault "sequential" false Decoder.bool
    pins := ← r.withDefault "pins" [] (Decoder.list PinSpec.decode)
    arcs := ← r.withDefault "arcs" [] (Decoder.list (Decoder.pair Decoder.string)) }

def decode : Decoder InstanceSpec := fun v =>
  (Fields.ofValue? .json fieldNames v).bind ofFields?

def encodeArc (arc : String × String) : Value := .array [.string arc.1, .string arc.2]

def encode (s : InstanceSpec) : Value :=
  .object [
    ("name", .string s.name), ("master", .string s.master), ("sequential", .bool s.sequential),
    ("pins", Encode.list PinSpec.encode s.pins), ("arcs", Encode.list encodeArc s.arcs)]

end InstanceSpec

/-- A net and the full names of its pins. -/
structure NetSpec where
  name : String
  pins : List String

namespace NetSpec

def fieldNames : List String := ["name", "pins"]

def ofFields? (r : Fields) : Option NetSpec := do
  return {
    name := ← r.required "name" Decoder.string
    pins := ← r.required "pins" (Decoder.list Decoder.string) }

def decode : Decoder NetSpec := fun v =>
  (Fields.ofValue? .json fieldNames v).bind ofFields?

def encode (s : NetSpec) : Value :=
  .object [("name", .string s.name), ("pins", Encode.list .string s.pins)]

end NetSpec

/-- Timing of a pin at one analysis point. -/
structure TimingSpec where
  pin : String
  corner : String
  minMax : MinMax := .max
  arrival : Double
  slew : Double := 0
  load : Double := 0
  rising : Bool := false
  slack : Option Double := none

namespace TimingSpec

def fieldNames : List String :=
  ["pin", "corner", "min_max", "arrival", "slew", "load", "rising", "slack"]

def ofFields? (r : Fields) : Option TimingSpec := do
  return {
    pin := ← r.required "pin" Decoder.string
    corner := ← r.required "corner" Decoder.string
    minMax := ← r.withDefault "min_max" .max MinMax.decode
    arrival := ← r.required "arrival" Decoder.real
    slew := ← r.withDefault "slew" 0 Decoder.real
    load := ← r.withDefault "load" 0 Decoder.real
    rising := ← r.withDefault "rising" false Decoder.bool
    slack := ← r.optional "slack" Decoder.real }

def decode : Decoder TimingSpec := fun v =>
  (Fields.ofValue? .json fieldNames v).bind ofFields?

def encode (s : TimingSpec) : Value :=
  .object [
    ("pin", .string s.pin), ("corner", .string s.corner), ("min_max", s.minMax.encode),
    ("arrival", Encode.real s.arrival), ("slew", Encode.real s.slew), ("load", Encode.real s.load),
    ("rising", .bool s.rising), ("slack", Encode.nullable Encode.real s.slack)]

end TimingSpec

/-- A stage of a path. Whether it is on the clock follows from the pin unless it is written. -/
structure StageSpec where
  pin : String
  clock : Option Bool := none
  rising : Bool := false
  arrival : Double
  delay : Double := 0
  slew : Double := 0
  load : Double := 0

namespace StageSpec

def fieldNames : List String := ["pin", "clock", "rising", "arrival", "delay", "slew", "load"]

def ofFields? (r : Fields) : Option StageSpec := do
  return {
    pin := ← r.required "pin" Decoder.string
    clock := ← r.optional "clock" Decoder.bool
    rising := ← r.withDefault "rising" false Decoder.bool
    arrival := ← r.required "arrival" Decoder.real
    delay := ← r.withDefault "delay" 0 Decoder.real
    slew := ← r.withDefault "slew" 0 Decoder.real
    load := ← r.withDefault "load" 0 Decoder.real }

def decode : Decoder StageSpec := fun v =>
  (Fields.ofValue? .json fieldNames v).bind ofFields?

def encode (s : StageSpec) : Value :=
  .object [
    ("pin", .string s.pin), ("clock", Encode.nullable .bool s.clock), ("rising", .bool s.rising),
    ("arrival", Encode.real s.arrival), ("delay", Encode.real s.delay),
    ("slew", Encode.real s.slew), ("load", Encode.real s.load)]

end StageSpec

/-- The clock path that a path is checked against. -/
structure CaptureSpec where
  offset : Double := 0
  stages : List StageSpec

namespace CaptureSpec

def fieldNames : List String := ["offset", "stages"]

def ofFields? (r : Fields) : Option CaptureSpec := do
  return {
    offset := ← r.withDefault "offset" 0 Decoder.real
    stages := ← r.required "stages" (Decoder.list StageSpec.decode) }

def decode : Decoder CaptureSpec := fun v =>
  (Fields.ofValue? .json fieldNames v).bind ofFields?

def encode (s : CaptureSpec) : Value :=
  .object [("offset", Encode.real s.offset), ("stages", Encode.list StageSpec.encode s.stages)]

end CaptureSpec

/-- A path. Without a slack it is unconstrained; without a delay, that of its stages counts. -/
structure PathSpec where
  corner : String
  minMax : MinMax := .max
  startClock : Option String := none
  endClock : Option String := none
  slack : Option Double := none
  arrival : Double := 0
  required : Double := 0
  pathDelay : Option Double := none
  stages : List StageSpec
  capture : Option CaptureSpec := none

namespace PathSpec

def fieldNames : List String :=
  ["corner", "min_max", "start_clock", "end_clock", "slack", "arrival", "required", "path_delay",
    "stages", "capture"]

def ofFields? (r : Fields) : Option PathSpec := do
  return {
    corner := ← r.required "corner" Decoder.string
    minMax := ← r.withDefault "min_max" .max MinMax.decode
    startClock := ← r.optional "start_clock" Decoder.string
    endClock := ← r.optional "end_clock" Decoder.string
    slack := ← r.optional "slack" Decoder.real
    arrival := ← r.withDefault "arrival" 0 Decoder.real
    required := ← r.withDefault "required" 0 Decoder.real
    pathDelay := ← r.optional "path_delay" Decoder.real
    stages := ← r.required "stages" (Decoder.list StageSpec.decode)
    capture := ← r.optional "capture" CaptureSpec.decode }

def decode : Decoder PathSpec := fun v =>
  (Fields.ofValue? .json fieldNames v).bind ofFields?

def encode (s : PathSpec) : Value :=
  .object [
    ("corner", .string s.corner), ("min_max", s.minMax.encode),
    ("start_clock", Encode.nullable .string s.startClock),
    ("end_clock", Encode.nullable .string s.endClock),
    ("slack", Encode.nullable Encode.real s.slack), ("arrival", Encode.real s.arrival),
    ("required", Encode.real s.required),
    ("path_delay", Encode.nullable Encode.real s.pathDelay),
    ("stages", Encode.list StageSpec.encode s.stages),
    ("capture", Encode.nullable CaptureSpec.encode s.capture)]

end PathSpec

end Snapshot

open Snapshot in
/-- A whole design. The first corner is the default. -/
structure Snapshot where
  corners : List String := []
  instances : List InstanceSpec := []
  blockPins : List PinSpec := []
  nets : List NetSpec := []
  timing : List TimingSpec := []
  paths : List PathSpec := []

namespace Snapshot

def fieldNames : List String := ["corners", "instances", "ports", "nets", "timing", "paths"]

def ofFields? (r : Fields) : Option Snapshot := do
  return {
    corners := ← r.withDefault "corners" [] (Decoder.list Decoder.string)
    instances := ← r.withDefault "instances" [] (Decoder.list InstanceSpec.decode)
    blockPins := ← r.withDefault "ports" [] (Decoder.list PinSpec.decode)
    nets := ← r.withDefault "nets" [] (Decoder.list NetSpec.decode)
    timing := ← r.withDefault "timing" [] (Decoder.list TimingSpec.decode)
    paths := ← r.withDefault "paths" [] (Decoder.list PathSpec.decode) }

def decode : Decoder Snapshot := fun v =>
  (Fields.ofValue? .json fieldNames v).bind ofFields?

def encode (s : Snapshot) : Value :=
  .object [
    ("corners", Encode.list .string s.corners),
    ("instances", Encode.list InstanceSpec.encode s.instances),
    ("ports", Encode.list PinSpec.encode s.blockPins),
    ("nets", Encode.list NetSpec.encode s.nets),
    ("timing", Encode.list TimingSpec.encode s.timing),
    ("paths", Encode.list PathSpec.encode s.paths)]

end Snapshot

end TimingExplorer
