import EchoLoad.Report.Files
import EchoLoad.World.Crew
/-!
What a workload works on: the world of its clients, the store of its files, and the lines it
prints.
-/

namespace EchoLoad

structure Session where
  world : World
  store : Store := {}
  printed : List String := []

/-- What a workload hands back: a report, or why the run failed. -/
abbrev Finished (ρ : Type) := Session × Except RunError ρ

namespace Session

def writeSeries (o : Output) (series : String) (samples : List Duration) (s : Session) :
    Except IoError Session :=
  (o.writeSeries series (samples.map Duration.seconds) s.store).map fun store => { s with store }

/-- Make the pool of a workload with a fixed pool, as far as interrupts allow, and write its join
latencies. If a client of it cannot connect the run has failed, and the others are closed. -/
def establish (set : Setting) (fuel clients batch : Nat) (o : Output) (s : Session) :
    Except Stop (Finished (List Client × Nat)) := do
  let (w, pool) ← s.world.establishPool set fuel clients batch
  match pool.failure with
  | some e =>
    let (w, _) ← w.closeAll set fuel batch 0 pool.clients
    let (joins, w) := w.takeJoins
    let s := { s with world := w }
    match s.writeSeries o "join-lat" joins with
    | .error e => return (s, .error (.output e))
    | .ok s => return (s, .error (.pool pool.clients.length e))
  | none =>
    let (joins, w) := w.takeJoins
    let s := { s with world := w }
    match s.writeSeries o "join-lat" joins with
    | .error e => return ({ s with world := w.release pool.clients }, .error (.output e))
    | .ok s => return (s, .ok (pool.clients, joins.length))

end Session

end EchoLoad
