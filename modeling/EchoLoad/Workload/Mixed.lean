import EchoLoad.Workload.Session
/-!
The mixed workload: each client of a fixed pool runs a random number of rounds with payloads of
random lengths, so clients finish at different times.
-/

namespace EchoLoad

structure MixedSettings where
  clients : Nat
  batchSize : Nat
  payload : PayloadSize
  /-- Each client runs between 1 and this many rounds. -/
  maxRounds : Nat
  deriving DecidableEq, Repr

structure MixedReport where
  pool : Nat
  joinSamples : Nat
  rounds : Nat
  totalBytes : Nat
  messageSamples : Nat
  /-- The first failure of a client, which stopped the others. -/
  failure : Option ClientError
  interrupted : Bool
  deriving DecidableEq, Repr

namespace Mixed

/-- Draw the number of rounds of each client and start its loop. -/
def spawnAll (set : Setting) (s : MixedSettings) :
    List Client → Source → World → Except Stop World
  | [], _, w => .ok w
  | c :: rest, source, w =>
    match source.uniform 1 (max s.maxRounds 1) with
    | none => .error ⟨.emptyRange, w⟩
    | some (n, source) =>
      spawnAll set s rest source (w.spawn set { payload := s.payload, rounds := some n } c)

def run (set : Setting) (fuel : Nat) (s : MixedSettings) (o : Output) (session : Session) :
    Except Stop (Finished MixedReport) := do
  match ← session.establish set fuel s.clients s.batchSize o with
  | (session, .error e) => return (session, .error e)
  | (session, .ok (clients, joins)) =>
    let w := session.world
    let w ← spawnAll set s clients set.source { w with active := !w.stopped }
    let (w, clients, failure) ← w.joinAll set fuel none
    let totalBytes := Client.totalBytes clients
    let (messages, w) := w.cancel.takeMessages
    match { session with world := w }.writeSeries o "msg-lat" messages with
    | .error e => return ({ session with world := w.release clients }, .error (.output e))
    | .ok session =>
      let session := { session with
        printed := session.printed ++ [s!"Total bytes sent: {totalBytes}"] }
      let (w, _) ← session.world.closeAll set fuel s.batchSize 0 clients
      return ({ session with world := w }, .ok
        { pool := clients.length, joinSamples := joins
          rounds := Client.totalRounds clients, totalBytes
          messageSamples := messages.length, failure := failure.map (·.error)
          interrupted := w.stopped })

end Mixed

end EchoLoad
