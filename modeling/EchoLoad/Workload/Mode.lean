/-!
The kinds of workload and their names.
-/

namespace EchoLoad

inductive Mode where
  | ramp | throughput | mixed
  deriving DecidableEq, Repr

namespace Mode

def name : Mode → String
  | .ramp => "ramp"
  | .throughput => "throughput"
  | .mixed => "mixed"

def ofName? (text : String) : Option Mode :=
  [Mode.ramp, .throughput, .mixed].find? fun m => m.name = text

end Mode

end EchoLoad
