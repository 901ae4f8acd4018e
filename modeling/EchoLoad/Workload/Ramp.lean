import EchoLoad.Workload.Session
/-!
The ramp: more and more clients until the first failure. A batch of clients is connected; each
of them echoes once; then each starts a loop without end, and the next batch begins. The first
failed attempt or round ends the ramp, and so do a cap on the population and an interrupt.
-/

namespace EchoLoad

structure RampSettings where
  batchSize : Nat
  payload : PayloadSize
  /-- The population at which the ramp stops growing. -/
  maxClients : Option Nat := none
  /-- The time between a clean batch and the next. -/
  batchPause : Duration := 0
  deriving DecidableEq, Repr

inductive FailurePoint where
  | connect | echo
  deriving DecidableEq, Repr

def FailurePoint.name : FailurePoint → String
  | .connect => "connect"
  | .echo => "echo"

inductive RampEnd where
  | failed (point : FailurePoint) (error : ClientError)
  | capped
  | interrupted
  deriving DecidableEq, Repr

def RampEnd.label : RampEnd → String
  | .failed _ _ => "failed"
  | .capped => "capped"
  | .interrupted => "interrupted"

structure RampReport where
  ending : RampEnd
  population : Nat
  /-- Batches issued, also the one that failed. -/
  batches : Nat
  /-- Clients that were still open at the end. -/
  closed : Nat
  joinSamples : Nat
  messageSamples : Nat
  deriving DecidableEq, Repr

structure Ramp where
  population : Nat := 0
  batches : Nat := 0
  /-- Connected clients that will not start a loop. -/
  stragglers : List Client := []

namespace Ramp

def loopPlan (s : RampSettings) : EchoPlan := { payload := s.payload }

def admissionPlan (s : RampSettings) : EchoPlan := { payload := s.payload, rounds := some 1 }

def isAdmission (k : Worker) : Bool := k.plan.rounds.isSome

/-- The size of the next batch, or how the ramp ends instead. -/
def next (s : RampSettings) (r : Ramp) (w : World) : World × (RampEnd ⊕ Nat) :=
  match w.failures with
  | f :: rest => ({ w with failures := rest }, .inl (.failed .echo f.error))
  | [] =>
    if !w.active || w.stopped then (w, .inl .interrupted)
    else
      match s.maxClients with
      | none => (w, .inr s.batchSize)
      | some cap =>
        if cap ≤ r.population then (w, .inl .capped)
        else (w, .inr (min s.batchSize (cap - r.population)))

/-- Until every new client has done its round. Each that is still open then starts its loop; the
others are handed back. -/
def admitting (set : Setting) (s : RampSettings) : Watch (List Client) (List Client) where
  waiting _ := { joins := isAdmission, ended := fun w => !w.workers.any isAdmission }
  react left wakeup w :=
    match wakeup with
    | .joined c =>
      if c.isOpen then (w.spawn set (loopPlan s) c, .inl left) else (w, .inl (left ++ [c]))
    | .ended => (w, .inr left)
    | _ => (w, .inl left)

def admitBatch (set : Setting) (fuel : Nat) (s : RampSettings) (clients : List Client) (w : World) :
    Except Stop (World × List Client) :=
  (clients.foldl (World.spawn set (admissionPlan s)) w).attend set (admitting set s) fuel []

/-- One batch: connect it, admit it, pause. -/
def cycle (set : Setting) (fuel : Nat) (s : RampSettings) (r : Ramp) (w : World) :
    Except Stop (World × Ramp × Option RampEnd) := do
  match r.next s w with
  | (w, .inl ending) => return (w, r, some ending)
  | (w, .inr size) =>
    let (w, resolved, seen) ← w.connectBatch set fuel r.population size true
    let r := { r with batches := r.batches + 1 }
    match seen with
    | some f =>
      let r := { r with stragglers := r.stragglers ++ resolved.connected }
      return (w, r, some (.failed .echo f.error))
    | none =>
      let r := { r with population := r.population + resolved.connected.length }
      match resolved.refusals with
      | e :: _ =>
        let r := { r with stragglers := r.stragglers ++ resolved.connected }
        return (w, r, some (.failed .connect e))
      | [] =>
        let (w, left) ← admitBatch set fuel s resolved.connected w
        let r := { r with stragglers := r.stragglers ++ left }
        if s.batchPause = 0 then return (w, r, none)
        else
          let (w, failure) ← w.pause set fuel s.batchPause
          return (w, r, failure.map fun f => .failed .echo f.error)

/-- Batch after batch until the ramp ends. The first number bounds the batches. -/
def grow (set : Setting) (fuel : Nat) (s : RampSettings) :
    Nat → Ramp → World → Except Stop (World × Ramp × RampEnd)
  | 0, _, w => .error ⟨.exhausted, w⟩
  | batches + 1, r, w =>
    match cycle set fuel s r w with
    | .error stop => .error stop
    | .ok (w, r, some ending) => .ok (w, r, ending)
    | .ok (w, r, none) => grow set fuel s batches r w

/-- Wait for every loop to end. A failure that comes to light only now still counts, unless the
ramp has failed already. -/
def settle (set : Setting) (fuel : Nat) (ending : RampEnd) (w : World) :
    Except Stop (World × List Client × RampEnd) := do
  let (w, clients) ← w.cancel.drain set fuel
  let w' := { w with failures := [] }
  match ending, w.failures with
  | .failed p e, _ => return (w', clients, .failed p e)
  | _, f :: rest => return ({ w with failures := rest }, clients, .failed .echo f.error)
  | ending, [] => return (w', clients, ending)

/-- Run a ramp to its end, close every client and write the samples. -/
def run (set : Setting) (fuel : Nat) (s : RampSettings) (o : Output) (session : Session) :
    Except Stop (Finished RampReport) := do
  let (w, r, ending) ← grow set fuel s fuel {} session.world.activate
  let (w, clients, ending) ← settle set fuel ending w
  let (w, closed) ← w.closeAll set fuel s.batchSize 0 (r.stragglers ++ clients)
  let (joins, w) := w.takeJoins
  let (messages, w) := w.takeMessages
  let session := { session with world := w }
  match session.writeSeries o "join-lat" joins with
  | .error e => return (session, .error (.output e))
  | .ok session =>
    match session.writeSeries o "msg-lat" messages with
    | .error e => return (session, .error (.output e))
    | .ok session =>
      return (session, .ok
        { ending, population := r.population, batches := r.batches, closed
          joinSamples := joins.length, messageSamples := messages.length })

end Ramp

end EchoLoad
