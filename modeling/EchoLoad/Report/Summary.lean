import EchoLoad.IoError
import EchoLoad.Report.Phase
import EchoLoad.Toml.Text
/-!
The summary of a run and its text.
-/

namespace EchoLoad

structure RunSummary where
  name : String
  mode : String
  server : String
  startedAt : String
  finishedAt : String
  /-- The population of a ramp, the pool of the other modes. -/
  clients : Nat := 0
  joinSamples : Nat := 0
  totalBytes : Option Nat := none
  outcome : Option String := none
  failure : Option String := none
  phases : List PhaseSummary := []
  deriving DecidableEq, Repr

namespace RunSummary

/-- Whole numbers in the summary are signed words of 64 bits. -/
def integerBound : Nat := 9223372036854775808

def integers (s : RunSummary) : List Nat :=
  [s.clients, s.joinSamples] ++ s.totalBytes.toList ++
    s.phases.flatMap fun p => [p.size, p.bytes, p.rounds, p.samples]

def phaseText (p : PhaseSummary) : String :=
  "\n[[phases]]\n" ++ s!"size = {p.size}\n" ++ s!"bytes = {p.bytes}\n" ++
    s!"rounds = {p.rounds}\n" ++ s!"samples = {p.samples}\n" ++
    s!"elapsed_secs = {Toml.float p.elapsedSecs}\n" ++
    s!"bytes_per_sec = {Toml.float p.bytesPerSec}\n"

def optional (key : String) (value : Option String) : String :=
  value.elim "" fun v => s!"{key} = {Toml.string v}\n"

def text (s : RunSummary) : String :=
  s!"name = {Toml.string s.name}\n" ++ s!"mode = {Toml.string s.mode}\n" ++
    s!"server = {Toml.string s.server}\n" ++ s!"started_at = {Toml.string s.startedAt}\n" ++
    s!"finished_at = {Toml.string s.finishedAt}\n" ++ s!"clients = {s.clients}\n" ++
    s!"join_samples = {s.joinSamples}\n" ++
    s.totalBytes.elim "" (fun n => s!"total_bytes = {n}\n") ++
    optional "outcome" s.outcome ++ optional "failure" s.failure ++
    if s.phases = [] then "phases = []\n" else String.join (s.phases.map phaseText)

/-- The text, unless a number is too large for it. -/
def encode (s : RunSummary) : Except IoError String :=
  if s.integers.all (· < integerBound) then .ok s.text
  else .error ⟨.invalidData, "out-of-range value for u64 type"⟩

end RunSummary

end EchoLoad
