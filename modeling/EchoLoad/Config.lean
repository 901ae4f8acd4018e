import EchoLoad.Arguments
import EchoLoad.Config.File
import EchoLoad.Workload.Mixed
import EchoLoad.Workload.Ramp
import EchoLoad.Workload.Sweep
/-!
The configuration of a run: the file's settings with those of the command line over them, checked
as a whole, and the settings that client and workloads take from it.
-/

namespace EchoLoad

/-- A configuration. One made by `Config.merge` has no problem. -/
structure Config where
  server : String
  mode : Mode
  name : String
  outDir : String
  batchSize : Nat
  workers : Option Nat
  client : ClientSection
  ramp : RampSection
  throughput : SweepSection
  mixed : MixedSection
  logLevel : String
  deriving DecidableEq, Repr

inductive ConfigProblem where
  | batchSize
  | workers
  | rampLengths (min max : Nat)
  | clients
  | noSizes
  | sizeTooLarge (size : Nat)
  | mixedClients
  | mixedLengths (min max : Nat)
  | maxRounds
  | runTime
  deriving DecidableEq, Repr

def ConfigProblem.message : ConfigProblem → String
  | .batchSize => "batch_size must be at least 1"
  | .workers => "workers must be at least 1"
  | .rampLengths min max => s!"ramp min_msg_len {min} exceeds max_msg_len {max}"
  | .clients => "clients must be at least 1"
  | .noSizes => "sizes must not be empty"
  | .sizeTooLarge size => s!"message size {size} exceeds the 32-bit length field"
  | .mixedClients => "mixed clients must be at least 1"
  | .mixedLengths min max => s!"mixed min_msg_len {min} exceeds max_msg_len {max}"
  | .maxRounds => "max_rounds must be at least 1"
  | .runTime => "run_time_secs must be positive when rounds is unset"

namespace Config

def oversized? (c : Config) : Option Nat := c.throughput.sizes.find? (Frame.lengthBound ≤ ·)

/-- The first problem of a configuration. All modes are checked, whichever is chosen. -/
def problem? (c : Config) : Option ConfigProblem :=
  if c.batchSize = 0 then some .batchSize
  else if c.workers = some 0 then some .workers
  else if c.ramp.maxLength < c.ramp.minLength then
    some (.rampLengths c.ramp.minLength c.ramp.maxLength)
  else if c.throughput.clients = 0 then some .clients
  else if c.throughput.sizes = [] then some .noSizes
  else if let some size := c.oversized? then some (.sizeTooLarge size)
  else if c.mixed.clients = 0 then some .mixedClients
  else if c.mixed.maxLength < c.mixed.minLength then
    some (.mixedLengths c.mixed.minLength c.mixed.maxLength)
  else if c.mixed.maxRounds = 0 then some .maxRounds
  else if c.throughput.rounds = none ∧ c.throughput.runTime = 0 then some .runTime
  else none

/-- The command line over the file. -/
def overlay (a : Arguments) (f : FileConfig) : Config where
  server := a.server.getD f.target.server
  mode := a.mode.getD f.run.mode
  name := a.name.getD f.run.name
  outDir := a.out.getD f.run.outDir
  batchSize := a.batchSize.getD f.run.batchSize
  workers := a.workers.or f.run.workers
  client := f.client
  ramp := f.ramp
  throughput := { f.throughput with
    clients := a.clients.getD f.throughput.clients
    runTime := a.runTime.getD f.throughput.runTime
    rounds := a.rounds.or f.throughput.rounds }
  mixed := { f.mixed with clients := a.clients.getD f.mixed.clients }
  logLevel := a.logLevel.getD f.logging.level

def merge (a : Arguments) (f : FileConfig) : Except ConfigProblem Config :=
  let c := overlay a f
  match c.problem? with
  | some p => .error p
  | none => .ok c

/-- A limit in milliseconds, where 0 is none. -/
def limit (ms : Nat) : Option Duration := if ms = 0 then none else some (.ofMillis ms)

def clientOptions (c : Config) : ClientOptions where
  handshake := if c.client.handshake then some c.client.handshakePayload.toUTF8.toList else none
  connectTimeout := limit c.client.connectTimeout
  ioTimeout := limit c.client.ioTimeout

def rampSettings (c : Config) : RampSettings where
  batchSize := c.batchSize
  payload := .uniform c.ramp.minLength c.ramp.maxLength
  maxClients := c.ramp.maxClients
  batchPause := .ofMillis c.ramp.batchPause

def sweepSettings (c : Config) : SweepSettings where
  clients := c.throughput.clients
  batchSize := c.batchSize
  sizes := c.throughput.sizes
  phaseEnd := c.throughput.rounds.elim (.duration (.ofSecs c.throughput.runTime)) .rounds
  phasePause := .ofMillis c.throughput.phasePause
  closePause := .ofMillis c.throughput.closePause

def mixedSettings (c : Config) : MixedSettings where
  clients := c.mixed.clients
  batchSize := c.batchSize
  payload := .uniform c.mixed.minLength c.mixed.maxLength
  maxRounds := c.mixed.maxRounds

end Config

end EchoLoad
