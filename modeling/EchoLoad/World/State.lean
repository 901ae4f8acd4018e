import EchoLoad.Client
import EchoLoad.Payload
import EchoLoad.Samples
/-!
Everything that a run shares while it lasts: the clock, the run flag and the stop latch, the
network, connect attempts and echo loops in flight, the failure channel and the samples. The
journal remembers what began and ended, and when.
-/

namespace EchoLoad

inductive Signal where
  /-- Set the stop latch. -/
  | latch
  /-- Clear the run flag. -/
  | cancel
  /-- Both. -/
  | interrupt
  deriving DecidableEq, Repr

/-- What an echo loop sends, and how many rounds it may do. -/
structure EchoPlan where
  payload : PayloadSize
  rounds : Option Nat := none
  deriving DecidableEq, Repr

inductive Stage where
  /-- At the top: the flag and the budget decide whether a round starts. -/
  | ready
  /-- In a round, with the way it will end. -/
  | busy (ending : Ending)
  | done
  deriving Repr

/-- An echo loop that drives one client. While a round is under way the client is already as
the round will leave it. -/
structure Worker where
  client : Client
  plan : EchoPlan
  source : Source
  completed : Nat := 0
  stage : Stage := .ready

/-- A connect attempt in flight. The client is already as the attempt will leave it. -/
structure Dial where
  client : Client
  ending : Ending
  deriving Repr

/-- Something worth remembering about a client, which is named by its id. -/
inductive Event where
  | attempt (client : Nat)
  /-- An attempt to connect has ended, and why if it failed. -/
  | resolved (client : Nat) (failure : Option ClientError)
  | roundStarted (client : Nat)
  /-- A round has ended, and why if it failed. -/
  | roundEnded (client : Nat) (failure : Option ClientError)
  | closed (client : Nat)
  deriving DecidableEq, Repr

/-- What stays the same during a run. -/
structure Setting where
  options : ClientOptions := {}
  /-- What numbers of rounds are drawn from. -/
  source : Source
  /-- What an echo loop draws from, by the turn at which it starts and the client it drives. -/
  loopSource : Nat → Nat → Source := fun _ _ => source
  /-- Of the things that fall on one instant, which comes next: the choice at each turn. -/
  order : Nat → Nat := fun _ => 0

structure World where
  now : Duration := 0
  /-- Choices made so far. -/
  turn : Nat := 0
  /-- The run flag. Loops start rounds only while it is set. -/
  active : Bool := false
  /-- The stop latch. Once set it stays set. -/
  stopped : Bool := false
  /-- Interrupts to come, by time. -/
  signals : List (Duration × Signal) := []
  network : Network := {}
  /-- Attempts of the current batch that have not ended. -/
  dials : List Dial := []
  /-- Clients of the current batch that have connected, in order of time. -/
  connected : List Client := []
  /-- Why other members of the batch did not connect, in order of time. -/
  refusals : List ClientError := []
  workers : List Worker := []
  /-- Failures sent and not yet received, the earliest first. -/
  failures : List Failure := []
  sink : Sink := {}
  /-- What has happened, the latest first. -/
  journal : List (Duration × Event) := []

namespace World

def note (w : World) (e : Event) : World := { w with journal := (w.now, e) :: w.journal }

def activate (w : World) : World := { w with active := true }

def cancel (w : World) : World := { w with active := false }

/-- Let the first of the coming interrupts arrive. -/
def interrupted (w : World) : World :=
  match w.signals with
  | [] => w
  | (_, s) :: rest =>
    { w with
      signals := rest
      stopped := w.stopped || s = .latch || s = .interrupt
      active := w.active && s = .latch }

def dial (set : Setting) (w : World) (id : Nat) : World :=
  let call := { id : Client }.connect set.options w.now w.network
  { w.note (.attempt id) with
    network := call.network, dials := w.dials ++ [⟨call.client, call.ending⟩] }

/-- Attempt `i` has connected its client, which leaves a join sample. -/
def arrived (w : World) (i : Nat) (c : Client) (latency : Duration) : World :=
  { w.note (.resolved c.id none) with
    dials := w.dials.eraseIdx i
    connected := w.connected ++ [c], sink := w.sink.record (.join latency) }

def declined (w : World) (i : Nat) (c : Client) (e : ClientError) : World :=
  { w.note (.resolved c.id (some e)) with
    dials := w.dials.eraseIdx i, refusals := w.refusals ++ [e] }

def resolve (w : World) (i : Nat) : World :=
  match w.dials[i]? with
  | some ⟨c, some (_, .ok latency)⟩ => w.arrived i c latency
  | some ⟨c, some (_, .error e)⟩ => w.declined i c e
  | _ => w

def newLoop (set : Setting) (plan : EchoPlan) (w : World) (c : Client) : Worker :=
  { client := c, plan, source := set.loopSource w.turn c.id }

@[simp] theorem newLoop_client (set : Setting) (plan : EchoPlan) (w : World) (c : Client) :
    (w.newLoop set plan c).client = c := rfl

@[simp] theorem newLoop_plan (set : Setting) (plan : EchoPlan) (w : World) (c : Client) :
    (w.newLoop set plan c).plan = plan := rfl

@[simp] theorem newLoop_stage (set : Setting) (plan : EchoPlan) (w : World) (c : Client) :
    (w.newLoop set plan c).stage = .ready := rfl

def spawn (set : Setting) (plan : EchoPlan) (w : World) (c : Client) : World :=
  { w with workers := w.workers ++ [w.newLoop set plan c] }

def close (w : World) (c : Client) : World :=
  if c.isOpen then { w.note (.closed c.id) with network := (c.close w.network).2 } else w

/-- Give up the connections of clients that nobody will close. -/
def release (w : World) (clients : List Client) : World :=
  let streams := clients.filterMap Client.stream
  { w with network := streams.foldl (fun net n => net.modify n Connection.drop) w.network }

def takeMessages (w : World) : List Duration × World :=
  (w.sink.takeMessages.1, { w with sink := w.sink.takeMessages.2 })

def takeJoins (w : World) : List Duration × World :=
  (w.sink.takeJoins.1, { w with sink := w.sink.takeJoins.2 })

end World

inductive Halt where
  /-- Everything waits for something that never comes. -/
  | stuck
  /-- A number was to be drawn from an empty range. -/
  | emptyRange
  /-- The number of steps granted was too small. -/
  | exhausted
  deriving DecidableEq, Repr

/-- The end of a run that has nothing to report. -/
structure Stop where
  reason : Halt
  world : World

end EchoLoad
