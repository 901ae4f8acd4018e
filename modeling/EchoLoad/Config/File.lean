import EchoLoad.Toml.Document
import EchoLoad.Workload.Mode
/-!
The configuration file. It is a TOML document whose sections hold settings; a section or setting
that is missing has its default, and keys that mean nothing here are passed over.
-/

namespace EchoLoad

structure TargetSection where
  server : String := "127.0.0.1:6969"
  deriving DecidableEq, Repr

structure RunSection where
  mode : Mode := .throughput
  name : String := "local"
  outDir : String := "echo-out"
  batchSize : Nat := 1000
  workers : Option Nat := none
  deriving DecidableEq, Repr

structure ClientSection where
  /-- Whether a connection must echo a first payload before it counts as joined. -/
  handshake : Bool := true
  handshakePayload : String := "HELLO"
  /-- Milliseconds; 0 is no limit. -/
  connectTimeout : Nat := 5000
  /-- Milliseconds; 0 is no limit. -/
  ioTimeout : Nat := 0
  deriving DecidableEq, Repr

structure RampSection where
  minLength : Nat := 4
  maxLength : Nat := 1000
  maxClients : Option Nat := none
  /-- In milliseconds. -/
  batchPause : Nat := 0
  deriving DecidableEq, Repr

structure SweepSection where
  clients : Nat := 5000
  sizes : List Nat := [100, 500, 1000, 5000, 10000, 50000, 100000]
  /-- The length of a phase in seconds, unless `rounds` is given. -/
  runTime : Nat := 30
  rounds : Option Nat := none
  /-- In milliseconds. -/
  phasePause : Nat := 1000
  /-- In milliseconds. -/
  closePause : Nat := 1000
  deriving DecidableEq, Repr

structure MixedSection where
  clients : Nat := 5000
  minLength : Nat := 4
  maxLength : Nat := 1000
  maxRounds : Nat := 1000
  deriving DecidableEq, Repr

structure LoggingSection where
  level : String := "info"
  deriving DecidableEq, Repr

structure FileConfig where
  target : TargetSection := {}
  run : RunSection := {}
  client : ClientSection := {}
  ramp : RampSection := {}
  throughput : SweepSection := {}
  mixed : MixedSection := {}
  logging : LoggingSection := {}
  deriving DecidableEq, Repr

/-! ## Values -/

namespace Toml.Value

def text? : Value → Option String
  | .string s => some s
  | _ => none

def boolean? : Value → Option Bool
  | .boolean b => some b
  | _ => none

def natural? : Value → Option Nat
  | .integer (.ofNat n) => some n
  | _ => none

def naturals? : Value → Option (List Nat)
  | .array items => items.mapM natural?
  | _ => none

def isEmpty : Value → Bool
  | .array [] => true
  | .table _ [] => true
  | _ => false

/-- A mode is given by its name, or by a table whose only key is its name, with nothing in it. -/
def mode? : Value → Option Mode
  | .string s => Mode.ofName? s
  | .table _ [(name, v)] => if v.isEmpty then Mode.ofName? name else none
  | _ => none

end Toml.Value

/-! ## Sections -/

/-- How a section stands in a file: its values under their keys, or the values alone in the order
of the keys. -/
inductive Section where
  | keyed (entries : Toml.Entries)
  | listed (values : List Toml.Value)

namespace Section

/-- A date has none of the keys that are asked for. -/
def ofValue? : Toml.Value → Option Section
  | .table _ entries => some (.keyed entries)
  | .array items => some (.listed items)
  | .tables latest earlier =>
    some (.listed ((latest :: earlier).reverse.map (.table .header ·)))
  | .datetime => some (.keyed [])
  | _ => none

/-- The value of a key, which is number `i` of its section. -/
def value? (s : Section) (i : Nat) (key : String) : Option Toml.Value :=
  match s with
  | .keyed entries => entries.lookup key
  | .listed values => values[i]?

def get {α : Type} (s : Section) (i : Nat) (key : String) (read : Toml.Value → Option α)
    (default : α) : Option α :=
  match s.value? i key with
  | some v => read v
  | none => some default

/-- A setting without one. In a section without keys it must be there. -/
def find {α : Type} (s : Section) (i : Nat) (key : String) (read : Toml.Value → Option α) :
    Option (Option α) :=
  match s.value? i key, s with
  | some v, _ => (read v).map some
  | none, .keyed _ => some none
  | none, .listed _ => none

def target? (s : Section) : Option TargetSection := do
  let d : TargetSection := {}
  return ⟨← s.get 0 "server" (·.text?) d.server⟩

def run? (s : Section) : Option RunSection := do
  let d : RunSection := {}
  return {
    mode := ← s.get 0 "mode" (·.mode?) d.mode
    name := ← s.get 1 "name" (·.text?) d.name
    outDir := ← s.get 2 "out_dir" (·.text?) d.outDir
    batchSize := ← s.get 3 "batch_size" (·.natural?) d.batchSize
    workers := ← s.find 4 "workers" (·.natural?) }

def client? (s : Section) : Option ClientSection := do
  let d : ClientSection := {}
  return {
    handshake := ← s.get 0 "handshake" (·.boolean?) d.handshake
    handshakePayload := ← s.get 1 "handshake_payload" (·.text?) d.handshakePayload
    connectTimeout := ← s.get 2 "connect_timeout_ms" (·.natural?) d.connectTimeout
    ioTimeout := ← s.get 3 "io_timeout_ms" (·.natural?) d.ioTimeout }

def ramp? (s : Section) : Option RampSection := do
  let d : RampSection := {}
  return {
    minLength := ← s.get 0 "min_msg_len" (·.natural?) d.minLength
    maxLength := ← s.get 1 "max_msg_len" (·.natural?) d.maxLength
    maxClients := ← s.find 2 "max_clients" (·.natural?)
    batchPause := ← s.get 3 "batch_pause_ms" (·.natural?) d.batchPause }

def sweep? (s : Section) : Option SweepSection := do
  let d : SweepSection := {}
  return {
    clients := ← s.get 0 "clients" (·.natural?) d.clients
    sizes := ← s.get 1 "sizes" (·.naturals?) d.sizes
    runTime := ← s.get 2 "run_time_secs" (·.natural?) d.runTime
    rounds := ← s.find 3 "rounds" (·.natural?)
    phasePause := ← s.get 4 "phase_pause_ms" (·.natural?) d.phasePause
    closePause := ← s.get 5 "close_pause_ms" (·.natural?) d.closePause }

def mixed? (s : Section) : Option MixedSection := do
  let d : MixedSection := {}
  return {
    clients := ← s.get 0 "clients" (·.natural?) d.clients
    minLength := ← s.get 1 "min_msg_len" (·.natural?) d.minLength
    maxLength := ← s.get 2 "max_msg_len" (·.natural?) d.maxLength
    maxRounds := ← s.get 3 "max_rounds" (·.natural?) d.maxRounds }

def logging? (s : Section) : Option LoggingSection := do
  let d : LoggingSection := {}
  return ⟨← s.get 0 "level" (·.text?) d.level⟩

end Section

namespace FileConfig

def section? {α : Type} (entries : Toml.Entries) (key : String) (read : Section → Option α)
    (default : α) : Option α :=
  match entries.lookup key with
  | some v => (Section.ofValue? v).bind read
  | none => some default

def ofEntries? (entries : Toml.Entries) : Option FileConfig := do
  return {
    target := ← section? entries "target" Section.target? {}
    run := ← section? entries "run" Section.run? {}
    client := ← section? entries "client" Section.client? {}
    ramp := ← section? entries "ramp" Section.ramp? {}
    throughput := ← section? entries "throughput" Section.sweep? {}
    mixed := ← section? entries "mixed" Section.mixed? {}
    logging := ← section? entries "logging" Section.logging? {} }

/-- The configuration in a text, if it is a document whose settings have the right types. -/
def parse? (text : String) : Option FileConfig := (Toml.document? text).bind ofEntries?

end FileConfig

end EchoLoad
