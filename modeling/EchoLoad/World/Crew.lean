import EchoLoad.World.Batch
/-!
Echo loops that are waited for together: the crew of a phase, and the loops of a ramp when it
ends.
-/

namespace EchoLoad.World

/-- Until every loop has ended; their clients are handed back. -/
def draining : Watch (List Client) (List Client) where
  waiting _ := { joins := fun _ => true, ended := fun w => w.workers.isEmpty }
  react clients wakeup w :=
    match wakeup with
    | .joined c => (w, .inl (clients ++ [c]))
    | .ended => (w, .inr clients)
    | _ => (w, .inl clients)

def drain (set : Setting) (fuel : Nat) (w : World) : Except Stop (World × List Client) :=
  w.attend set draining fuel []

/-- What is known while a crew is waited for. -/
structure Crew where
  clients : List Client := []
  /-- When the flag is to be cleared, if that is still to come. -/
  deadline : Option Duration := none
  first : Option Failure := none

/-- Until every loop has ended. The deadline and the first failure clear the run flag, so the
other loops end after their rounds under way. -/
def joining : Watch Crew Crew where
  waiting c :=
    { alarm := c.deadline
      mail := c.first.isNone
      joins := fun _ => true
      ended := fun w => w.workers.isEmpty }
  react c wakeup w :=
    match wakeup with
    | .alarm => (w.cancel, .inl { c with deadline := none })
    | .mail f => (w.cancel, .inl { c with first := some f })
    | .joined client => (w, .inl { c with clients := c.clients ++ [client] })
    | .ended => (w, .inr c)

/-- Wait for the crew, and give its clients by id and the first failure sent, also if that was
still on its way when the last loop ended. -/
def joinAll (set : Setting) (fuel : Nat) (limit : Option Duration) (w : World) :
    Except Stop (World × List Client × Option Failure) :=
  match w.attend set joining fuel { deadline := limit.map (w.now + ·) } with
  | .error stop => .error stop
  | .ok (w, c) =>
    let clients := Client.sortById c.clients
    match c.first, w.failures with
    | none, f :: rest => .ok ({ w with failures := rest }, clients, some f)
    | first, _ => .ok (w, clients, first)

end EchoLoad.World
