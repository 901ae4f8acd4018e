import EchoLoad.World.Watch
/-!
Batches: groups of clients that are connected or closed together. A batch is over only when all
its members are, so batches never overlap. There is room for a pool of any size; that its memory
could be refused before the first attempt is left out.
-/

namespace EchoLoad

/-- A batch of connect attempts that have all ended. -/
structure BatchOutcome where
  /-- The clients that connected, by id. -/
  connected : List Client
  /-- Why the others did not, in order of time. -/
  refusals : List ClientError
  deriving Repr

/-- A pool as far as it could be established. -/
structure PoolOutcome where
  clients : List Client := []
  /-- The first error of the batch that ended it. -/
  failure : Option ClientError := none
  deriving Repr

def Client.sortById (clients : List Client) : List Client :=
  clients.mergeSort fun a b => a.id ≤ b.id

namespace World

/-- Until no attempt is in flight. With `watchful` the first failure of an echo loop meanwhile
clears the run flag and is the result, but the batch is still waited for. -/
def connecting (watchful : Bool) : Watch (Option Failure) (Option Failure) where
  waiting seen := { mail := watchful && seen.isNone, ended := fun w => w.dials.isEmpty }
  react seen wakeup w :=
    match wakeup with
    | .ended => (w, .inr seen)
    | .mail f => (w.cancel, .inl (some f))
    | _ => (w, .inl seen)

def dialBatch (set : Setting) (first size : Nat) (w : World) : World :=
  (List.range' first size).foldl (dial set) w

def handOver (w : World) : World × BatchOutcome :=
  ({ w with connected := [], refusals := [] }, ⟨Client.sortById w.connected, w.refusals⟩)

/-- Connect a batch of fresh clients while echo loops may be running. -/
def connectBatch (set : Setting) (fuel first size : Nat) (watchful : Bool) (w : World) :
    Except Stop (World × BatchOutcome × Option Failure) :=
  ((w.dialBatch set first size).attend set (connecting watchful) fuel none).map
    fun (w, seen) => (w.handOver.1, w.handOver.2, seen)

/-- Connect batch after batch until the pool has `target` clients, a member of a batch fails, or
the stop latch is set. Clients of a failed batch that did connect belong to the pool. The first
argument bounds the number of batches. -/
def growPool (set : Setting) (fuel target batch : Nat) :
    Nat → PoolOutcome → World → Except Stop (World × PoolOutcome)
  | 0, pool, w => .ok (w, pool)
  | batches + 1, pool, w =>
    let count := pool.clients.length
    if target ≤ count then .ok (w, pool)
    else if w.stopped then .ok (w, pool)
    else
      match w.connectBatch set fuel count (min (max batch 1) (target - count)) false with
      | .error stop => .error stop
      | .ok (w, resolved, _) =>
        let pool := { pool with clients := pool.clients ++ resolved.connected }
        match resolved.refusals with
        | e :: _ => .ok (w, { pool with failure := some e })
        | [] => growPool set fuel target batch batches pool w

/-- Connect up to `target` clients. A batch without a failure adds a client at least, so
`target` batches are enough. -/
def establishPool (set : Setting) (fuel target batch : Nat) (w : World) :
    Except Stop (World × PoolOutcome) :=
  growPool set fuel target batch target {} w

def closeBatch (clients : List Client) (w : World) : World × Nat :=
  (clients.foldl close w, clients.countP Client.isOpen)

/-- Close clients batch by batch with a pause between one batch and the next, and count those
that were open. -/
def closeAll (set : Setting) (fuel batch : Nat) (pause : Duration) (clients : List Client)
    (w : World) : Except Stop (World × Nat) :=
  if clients = [] then .ok (w, 0)
  else
    let rest := clients.drop (max batch 1)
    let (w, closed) := w.closeBatch (clients.take (max batch 1))
    let paused := if rest = [] ∨ pause = 0 then .ok w else w.sleep set fuel pause
    match paused with
    | .error stop => .error stop
    | .ok w => (closeAll set fuel batch pause rest w).map fun (w, n) => (w, closed + n)
termination_by clients.length
decreasing_by
  rw [List.length_drop]
  have : clients.length ≠ 0 := by simpa using ‹¬clients = []›
  omega

end World

end EchoLoad
