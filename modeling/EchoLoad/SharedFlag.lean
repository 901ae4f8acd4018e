/-!
The run flag and the stop latch, and handles that share them. Echo loops look at the flag before
each round; the latch remembers an interrupt, because a controller may set the flag again.
-/

namespace EchoLoad

/-- Handles on shared cells: copies of a handle stand for the same cell. -/
structure Handles where
  cells : List Bool
  /-- The cell of each handle. -/
  family : List Nat
  deriving DecidableEq, Repr

namespace Handles

def first : Handles := ⟨[false], [0]⟩

def fresh (h : Handles) : Handles :=
  ⟨h.cells ++ [false], h.family ++ [h.cells.length]⟩

def isSet (h : Handles) (i : Nat) : Bool :=
  (h.family[i]?.bind (h.cells[·]?)).getD false

def clone (h : Handles) (i : Nat) : Handles :=
  match h.family[i]? with
  | some c => { h with family := h.family ++ [c] }
  | none => h

def write (h : Handles) (i : Nat) (value : Bool) : Handles :=
  match h.family[i]? with
  | some c => { h with cells := h.cells.set c value }
  | none => h

def states (h : Handles) : List Bool := (List.range h.family.length).map h.isSet

end Handles

/-- Run controls and stop latches, each with handles of its own. -/
structure Controls where
  active : Handles := .first
  stopped : Handles := .first
  deriving DecidableEq, Repr

inductive ControlAction where
  | new
  | clone (i : Nat)
  | activate (i : Nat)
  | cancel (i : Nat)
  | stop (i : Nat)
  deriving DecidableEq, Repr

namespace Controls

/-- What one action does. A cancellation also tells whether it cleared a set flag. -/
def perform (c : Controls) : ControlAction → Option Bool × Controls
  | .new => (none, ⟨c.active.fresh, c.stopped.fresh⟩)
  | .clone i => (none, ⟨c.active.clone i, c.stopped.clone i⟩)
  | .activate i => (none, { c with active := c.active.write i true })
  | .cancel i => (some (c.active.isSet i), { c with active := c.active.write i false })
  | .stop i => (none, { c with stopped := c.stopped.write i true })

end Controls

end EchoLoad
