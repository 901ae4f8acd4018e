import EchoLoad.Report.Summary
import EchoLoad.Store
/-!
The result files of one run. They lie in one directory and carry the name of the run; series
and summary replace what was there, phase records are added to the throughput file.
-/

namespace EchoLoad

structure Output where
  dir : String
  name : String
  deriving DecidableEq, Repr

namespace Output

def create (dir name : String) (s : Store) : Except IoError (Output × Store) :=
  (s.createDirs dir).map fun s => (⟨dir, name⟩, s)

def path (o : Output) (series extension : String) : String :=
  Path.join o.dir s!"{o.name}-{series}.{extension}"

def seriesText (values : List Float) : String :=
  String.join (values.map fun v => Decimal.shortest v ++ "\n")

def writeSeries (o : Output) (series : String) (values : List Float) (s : Store) :
    Except IoError Store :=
  s.write (o.path series "csv") (seriesText values)

/-- Empty the throughput file. -/
def startThroughput (o : Output) (s : Store) : Except IoError Store :=
  s.write (o.path "throughput" "csv") ""

def appendThroughput (o : Output) (size bytes : Nat) (elapsed : Duration) (s : Store) :
    Except IoError Store :=
  s.append (o.path "throughput" "csv") (throughputRecord size bytes elapsed ++ "\n")

def writeSummary (o : Output) (summary : RunSummary) (s : Store) : Except IoError Store := do
  s.write (o.path "summary" "toml") (← summary.encode)

end Output

end EchoLoad
