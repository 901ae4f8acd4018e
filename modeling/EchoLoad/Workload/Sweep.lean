import EchoLoad.Workload.Session
/-!
The sweep: a fixed pool of clients goes through a list of message sizes, one phase a size. A
phase lasts a given time or a given number of rounds for each client, and is written down before
the next one starts.
-/

namespace EchoLoad

inductive PhaseEnd where
  | duration (d : Duration)
  /-- Each client does this many rounds. -/
  | rounds (n : Nat)
  deriving DecidableEq, Repr

structure SweepSettings where
  clients : Nat
  batchSize : Nat
  sizes : List Nat
  phaseEnd : PhaseEnd
  phasePause : Duration := 0
  /-- The time between two batches of clients that are closed. -/
  closePause : Duration := 0
  deriving DecidableEq, Repr

structure SweepReport where
  pool : Nat
  joinSamples : Nat
  phases : List PhaseSummary
  /-- The first failure of a client, which ended the sweep. -/
  failure : Option ClientError
  interrupted : Bool
  deriving DecidableEq, Repr

structure Sweep where
  clients : List Client
  phases : List PhaseSummary := []
  failure : Option ClientError := none

namespace PhaseEnd

def rounds? : PhaseEnd → Option Nat
  | .duration _ => none
  | .rounds n => some n

def limit? : PhaseEnd → Option Duration
  | .duration d => some d
  | .rounds _ => none

end PhaseEnd

namespace Sweep

/-- One phase: every client runs a loop with payloads of one size. Its numbers are summed up when
all loops have ended. -/
def phase (set : Setting) (fuel : Nat) (s : SweepSettings) (size : Nat) (clients : List Client)
    (w : World) : Except Stop (World × List Client × PhaseSummary × Option Failure) := do
  let (_, w) := w.takeMessages
  let start := w.now
  let plan : EchoPlan := { payload := .fixed size, rounds := s.phaseEnd.rounds? }
  let w := { w with active := !w.stopped }
  let w := (clients.map Client.resetCounters).foldl (World.spawn set plan) w
  let (w, clients, failure) ← w.joinAll set fuel s.phaseEnd.limit?
  let w := { w.cancel with sink := w.sink.collect }
  return (w, clients,
    { size
      bytes := Client.totalBytes clients
      rounds := Client.totalRounds clients
      samples := w.sink.messages.length
      elapsed := w.now - start }, failure)

/-- Write down a phase that has ended, up to the first file that cannot be written. -/
def record (o : Output) (p : PhaseSummary) (session : Session) : Finished Unit :=
  let (messages, w) := session.world.takeMessages
  let session := { session with world := w }
  match session.writeSeries o s!"msg-lat-{p.size}" messages with
  | .error e => (session, .error (.output e))
  | .ok session =>
    match o.appendThroughput p.size p.bytes p.recordedTime session.store with
    | .error e => (session, .error (.output e))
    | .ok store =>
      let line := throughputRecord p.size p.bytes p.recordedTime
      ({ session with store, printed := session.printed ++ [line] }, .ok ())

def pause (set : Setting) (fuel : Nat) (s : SweepSettings) (p : Sweep) (w : World) :
    Except Stop World :=
  if p.phases = [] ∨ s.phasePause = 0 then .ok w else w.sleep set fuel s.phasePause

/-- Pause, go through the phase of one size and write it down. Tell also whether another phase
may follow: not if a client failed or the stop latch is set. -/
def turn (set : Setting) (fuel : Nat) (s : SweepSettings) (o : Output) (size : Nat) (p : Sweep)
    (session : Session) : Except Stop (Finished (Sweep × Bool)) := do
  let w ← pause set fuel s p session.world
  if w.stopped then return ({ session with world := w }, .ok (p, false))
  let (w, clients, summary, failure) ← phase set fuel s size p.clients w
  match record o summary { session with world := w } with
  | (session, .error e) =>
    return ({ session with world := session.world.release clients }, .error e)
  | (session, .ok ()) =>
    return (session,
      .ok (⟨clients, p.phases ++ [summary], failure.map (·.error)⟩, failure.isNone))

/-- The phases of the sizes to come, until none may follow or one cannot be written down. -/
def advance (set : Setting) (fuel : Nat) (s : SweepSettings) (o : Output) :
    List Nat → Sweep → Session → Except Stop (Finished Sweep)
  | [], p, session => .ok (session, .ok p)
  | size :: rest, p, session =>
    match turn set fuel s o size p session with
    | .error stop => .error stop
    | .ok (session, .error e) => .ok (session, .error e)
    | .ok (session, .ok (p, false)) => .ok (session, .ok p)
    | .ok (session, .ok (p, true)) => advance set fuel s o rest p session

/-- Establish the pool, go through every size, and close the pool. -/
def run (set : Setting) (fuel : Nat) (s : SweepSettings) (o : Output) (session : Session) :
    Except Stop (Finished SweepReport) := do
  match ← session.establish set fuel s.clients s.batchSize o with
  | (session, .error e) => return (session, .error e)
  | (session, .ok (clients, joins)) =>
    match o.startThroughput session.store with
    | .error e =>
      return ({ session with world := session.world.release clients }, .error (.output e))
    | .ok store =>
      match ← advance set fuel s o s.sizes { clients } { session with store } with
      | (session, .error e) => return (session, .error e)
      | (session, .ok p) =>
        let (w, _) ← session.world.closeAll set fuel s.batchSize s.closePause p.clients
        return ({ session with world := w }, .ok
          { pool := p.clients.length, joinSamples := joins, phases := p.phases
            failure := p.failure, interrupted := w.stopped })

end Sweep

end EchoLoad
