import EchoLoad.Address.Resolver
import EchoLoad.Config
/-!
One run: find the server, make the output directory, do the workload of the chosen mode, and write
a summary of it. The summary is written also when the workload fails.
-/

namespace EchoLoad

/-- What a run needs besides its configuration. -/
structure Surroundings where
  resolver : Resolver
  /-- What numbers of rounds are drawn from. -/
  source : Source
  /-- What an echo loop draws from, by the turn at which it starts and the client it drives. -/
  loopSource : Nat → Nat → Source := fun _ _ => source
  /-- Of the things that fall on one instant, which comes next: the choice at each turn. -/
  order : Nat → Nat := fun _ => 0
  /-- The date and time at an instant. -/
  stamp : Duration → String := fun _ => ""

inductive RunFailure where
  /-- No server, no directory, or no summary. -/
  | io (error : IoError)
  /-- The workload failed. -/
  | workload (error : RunError)
  deriving DecidableEq, Repr

def RunFailure.message : RunFailure → String
  | .io e => e.text
  | .workload e => e.message

def outcomeLabel (failed interrupted : Bool) : String :=
  if failed then "failed" else if interrupted then "interrupted" else "completed"

namespace RunSummary

/-- A workload that failed. If its pool could not be established, the clients that did connect
are counted. -/
def failed (s : RunSummary) (e : RunError) : RunSummary :=
  { s with
    outcome := some "failed"
    failure := some e.message
    clients := match e with
      | .pool connected _ => connected
      | _ => s.clients }

/-- A ramp that reports has not failed as a run, even if it ended on a failure. -/
def ofRamp (s : RunSummary) (r : RampReport) : RunSummary :=
  { s with
    clients := r.population
    joinSamples := r.joinSamples
    outcome := some r.ending.label
    failure := match r.ending with
      | .failed point e => some s!"{point.name} failed: {e.message}"
      | _ => s.failure }

def ofSweep (s : RunSummary) (r : SweepReport) : RunSummary :=
  { s with
    clients := r.pool
    joinSamples := r.joinSamples
    phases := r.phases
    outcome := some (outcomeLabel r.failure.isSome r.interrupted) }

def ofMixed (s : RunSummary) (r : MixedReport) : RunSummary :=
  { s with
    clients := r.pool
    joinSamples := r.joinSamples
    totalBytes := some r.totalBytes
    outcome := some (outcomeLabel r.failure.isSome r.interrupted) }

/-- A fixed pool of which a client failed is a failed run. -/
def poolResult (pool : Nat) (failure : Option ClientError) : Except RunError Unit :=
  failure.elim (.ok ()) fun e => .error (.echo pool e)

/-- Sum a workload up: take over its report, then its failure. -/
def conclude {ρ : Type} (s : RunSummary) (take : RunSummary → ρ → RunSummary)
    (result : ρ → Except RunError Unit) (finished : Except RunError ρ) :
    RunSummary × Except RunError Unit :=
  match finished with
  | .error e => (s.failed e, .error e)
  | .ok r =>
    match result r with
    | .ok () => (take s r, .ok ())
    | .error e => ((take s r).failed e, .error e)

end RunSummary

structure RunEnd where
  session : Session
  /-- The summary, if it was written. -/
  summary : Option RunSummary := none
  result : Except RunFailure Unit

namespace Run

def setting (env : Surroundings) (c : Config) : Setting where
  options := c.clientOptions
  source := env.source
  loopSource := env.loopSource
  order := env.order

def workload (env : Surroundings) (fuel : Nat) (c : Config) (o : Output) (s : RunSummary)
    (session : Session) : Except Stop (Session × RunSummary × Except RunError Unit) := do
  let set := setting env c
  match c.mode with
  | .ramp =>
    let (session, r) ← Ramp.run set fuel c.rampSettings o session
    return (session, s.conclude .ofRamp (fun _ => .ok ()) r)
  | .throughput =>
    let (session, r) ← Sweep.run set fuel c.sweepSettings o session
    return (session, s.conclude .ofSweep (fun r => RunSummary.poolResult r.pool r.failure) r)
  | .mixed =>
    let (session, r) ← Mixed.run set fuel c.mixedSettings o session
    return (session, s.conclude .ofMixed (fun r => RunSummary.poolResult r.pool r.failure) r)

/-- The workload and its summary, once server and directory are there. -/
def perform (env : Surroundings) (fuel : Nat) (c : Config) (server : Address) (o : Output)
    (session : Session) : Except Stop RunEnd := do
  let s : RunSummary :=
    { name := c.name, mode := c.mode.name, server := server.text
      startedAt := env.stamp session.world.now, finishedAt := "" }
  let (session, s, result) ← workload env fuel c o s session
  let s := { s with finishedAt := env.stamp session.world.now }
  match o.writeSummary s session.store with
  | .error e => return { session, result := .error (.io e) }
  | .ok store =>
    return { session := { session with store }, summary := some s
             result := result.mapError .workload }

def run (env : Surroundings) (fuel : Nat) (c : Config) (session : Session) :
    Except Stop RunEnd :=
  match env.resolver.resolve c.server with
  | .error e => .ok { session, result := .error (.io e) }
  | .ok server =>
    match Output.create c.outDir c.name session.store with
    | .error e => .ok { session, result := .error (.io e) }
    | .ok (o, store) => perform env fuel c server o { session with store }

end Run

end EchoLoad
