import EchoLoad.World.State
/-!
One step of a run: of all that can happen next the earliest is taken, and of several things on
one instant the one that the setting chooses. Either the world moves by itself, or the
controller that waits is woken.
-/

namespace EchoLoad

/-- What wakes a waiting controller. -/
structure Waiting where
  /-- An instant. -/
  alarm : Option Duration := none
  /-- A failure on the channel. -/
  mail : Bool := false
  /-- The end of one of these echo loops. -/
  joins : Worker → Bool := fun _ => false
  /-- That this holds. -/
  ended : World → Bool := fun _ => false

inductive Wakeup where
  | alarm
  | mail (failure : Failure)
  | joined (client : Client)
  | ended

inductive Move where
  | signal
  | dial (i : Nat)
  | work (i : Nat)
  | join (i : Nat)
  | mail
  | alarm
  | ended
  deriving DecidableEq, Repr

namespace Worker

def hasBudget (k : Worker) : Bool :=
  match k.plan.rounds with
  | some limit => k.completed < limit
  | none => true

/-- Back at the top, with one round more. -/
def advance (k : Worker) : Worker := { k with completed := k.completed + 1, stage := .ready }

end Worker

namespace World

def signalMoves (w : World) : List (Duration × Move) :=
  match w.signals with
  | [] => []
  | (t, _) :: _ => [(t, .signal)]

def dialMoves (w : World) : List (Duration × Move) :=
  w.dials.zipIdx.filterMap fun (d, i) => d.ending.map fun (t, _) => (t, .dial i)

/-- Loops in a round go on when it ends. Loops at their top go on at once, if they may. -/
def workerMoves (w : World) (may : Bool) : List (Duration × Move) :=
  w.workers.zipIdx.filterMap fun (k, i) =>
    match k.stage with
    | .ready => if may then some (w.now, .work i) else none
    | .busy ending => ending.map fun (t, _) => (t, .work i)
    | .done => none

def wakeups (w : World) (q : Waiting) : List (Duration × Move) :=
  (w.workers.zipIdx.filterMap fun (k, i) =>
    match k.stage with
    | .done => if q.joins k then some (w.now, .join i) else none
    | _ => none)
    ++ (if q.mail && !w.failures.isEmpty then [(w.now, .mail)] else [])
    ++ (q.alarm.map fun t => (t, Move.alarm)).toList
    ++ (if q.ended w then [(w.now, .ended)] else [])

/-- All that can happen next, and from when on. A loop that has been spawned gets its first turn
only when the controller has nothing at hand. -/
def moves (w : World) (q : Waiting) : List (Duration × Move) :=
  let wakeups := w.wakeups q
  w.workerMoves (wakeups.all fun m => w.now < m.1) ++ w.dialMoves ++ w.signalMoves ++ wakeups

/-- The first instant, not before now, at which something can happen. -/
def earliest (now : Duration) (moves : List (Duration × Move)) : Option Duration :=
  (moves.map fun m => max now m.1).min?

/-- What happens next, and when. -/
def choose (set : Setting) (w : World) (q : Waiting) : Option (Duration × Move) :=
  let moves := w.moves q
  match earliest w.now moves with
  | none => none
  | some t =>
    let due := moves.filter fun m => max w.now m.1 = t
    (due[set.order w.turn % due.length]?).map fun m => (t, m.2)

def retire (w : World) (i : Nat) (k : Worker) : World :=
  { w with workers := w.workers.set i { k with stage := .done } }

def startRound (set : Setting) (w : World) (i : Nat) (k : Worker) (payload : Bytes)
    (source : Source) : World :=
  let call := k.client.echoRound set.options w.now payload w.network
  let k' := { k with client := call.client, source, stage := .busy call.ending }
  { w.note (.roundStarted k.client.id) with
    network := call.network, workers := w.workers.set i k' }

/-- A loop at its top starts a round, or ends because the flag is clear or its budget spent. -/
def proceed (set : Setting) (w : World) (i : Nat) (k : Worker) : Except Stop World :=
  if w.active && k.hasBudget then
    match k.plan.payload.sample k.source with
    | none => .error ⟨.emptyRange, w⟩
    | some (length, source) =>
      let (payload, source) := Payload.fill length source
      .ok (w.startRound set i k payload source)
  else .ok (w.retire i k)

/-- The round of loop `i` was echoed, which leaves a sample and leads back to the top. -/
def echoed (w : World) (i : Nat) (k : Worker) (latency : Duration) : World :=
  { w.note (.roundEnded k.client.id none) with
    sink := w.sink.record (.message latency), workers := w.workers.set i k.advance }

/-- The round of loop `i` failed, which is sent and ends the loop. -/
def broken (w : World) (i : Nat) (k : Worker) (e : ClientError) : World :=
  { w.note (.roundEnded k.client.id (some e)) with
    failures := w.failures ++ [⟨k.client.id, e⟩]
    workers := w.workers.set i { k with stage := .done } }

/-- Loop `i` starts, or its round ends. -/
def work (set : Setting) (w : World) (i : Nat) : Except Stop World :=
  match w.workers[i]? with
  | none => .ok w
  | some k =>
    match k.stage with
    | .ready => w.proceed set i k
    | .busy (some (_, .ok latency)) => (w.echoed i k latency).proceed set i k.advance
    | .busy (some (_, .error e)) => .ok (w.broken i k e)
    | _ => .ok w

def apply (set : Setting) (q : Waiting) (w : World) : Move → Except Stop (World × Option Wakeup)
  | .signal => .ok (w.interrupted, none)
  | .dial i => .ok (w.resolve i, none)
  | .work i => (w.work set i).map (·, none)
  | .join i =>
    match w.workers[i]? with
    | some k => .ok ({ w with workers := w.workers.eraseIdx i }, some (.joined k.client))
    | none => .ok (w, none)
  | .mail =>
    match w.failures with
    | f :: rest => .ok ({ w with failures := rest }, some (.mail f))
    | [] => .ok (w, none)
  | .alarm => .ok (w, some .alarm)
  | .ended => .ok (w, if q.ended w then some .ended else none)

/-- A choice has been made, and it is `t` now. -/
def tick (w : World) (t : Duration) : World := { w with now := t, turn := w.turn + 1 }

/-- One step. Nothing can be done if nothing will ever happen. -/
def step (set : Setting) (q : Waiting) (w : World) : Except Stop (World × Option Wakeup) :=
  match w.choose set q with
  | none => .error ⟨.stuck, w⟩
  | some (t, m) => (w.tick t).apply set q m

end World

end EchoLoad
