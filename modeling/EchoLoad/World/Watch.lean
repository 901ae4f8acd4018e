import EchoLoad.World.Step
/-!
How a controller waits. It names what may wake it, and when woken either goes on waiting or
leaves with a result; until then the world moves by itself.
-/

namespace EchoLoad

/-- A wait with state `σ` of its own and a result in `ρ`. -/
structure Watch (σ ρ : Type) where
  waiting : σ → Waiting
  react : σ → Wakeup → World → World × (σ ⊕ ρ)

namespace World

/-- Wait for at most so many steps. -/
def attend {σ ρ : Type} (set : Setting) (watch : Watch σ ρ) :
    Nat → σ → World → Except Stop (World × ρ)
  | 0, _, w => .error ⟨.exhausted, w⟩
  | fuel + 1, s, w =>
    match w.step set (watch.waiting s) with
    | .error stop => .error stop
    | .ok (w, none) => attend set watch fuel s w
    | .ok (w, some wakeup) =>
      match watch.react s wakeup w with
      | (w, .inl s) => attend set watch fuel s w
      | (w, .inr r) => .ok (w, r)

def sleeping (t : Duration) : Watch Unit Unit where
  waiting _ := { alarm := some t }
  react _ wakeup w :=
    match wakeup with
    | .alarm => (w, .inr ())
    | _ => (w, .inl ())

def sleep (set : Setting) (fuel : Nat) (d : Duration) (w : World) : Except Stop World :=
  (w.attend set (sleeping (w.now + d)) fuel ()).map (·.1)

/-- Until an instant comes, or a failure before it. -/
def pausing (t : Duration) : Watch Unit (Option Failure) where
  waiting _ := { alarm := some t, mail := true }
  react _ wakeup w :=
    match wakeup with
    | .alarm => (w, .inr none)
    | .mail f => (w, .inr (some f))
    | _ => (w, .inl ())

/-- Let time pass, but stop at the first failure. -/
def pause (set : Setting) (fuel : Nat) (d : Duration) (w : World) :
    Except Stop (World × Option Failure) :=
  w.attend set (pausing (w.now + d)) fuel ()

end World

end EchoLoad
