/-!
Random words and uniform draws from a range. A source is an endless stream of 64-bit words with
a cursor; a draw multiplies a word by the size of the range, keeps the high half as the answer
and throws the word away when the low half falls outside the largest zone that favours no
answer.
-/

namespace EchoLoad

namespace Random

def wordBound : Nat := 18446744073709551616

/-- Low halves up to here are kept: the size of the range, doubled while it fits a word, less
one. -/
def zone (range : Nat) : Nat := range * Nat.pow 2 (63 - range.log2) - 1

def accepts (range : Nat) (word : UInt64) : Bool :=
  word.toNat * range % wordBound ≤ zone range

/-- What a kept word stands for: the high half of its product with the range. -/
def scale (range : Nat) (word : UInt64) : Nat := word.toNat * range / wordBound

theorem accepts_zero (range : Nat) : accepts range 0 = true := by
  simp [accepts]

/-- The first place from `i` on where `p` holds, all places from `start` to `i` being tried. -/
def firstFrom (p : Nat → Bool) (start : Nat) (h : ∃ m, start ≤ m ∧ p m = true) (i : Nat)
    (tried : start ≤ i ∧ ∀ j, start ≤ j → j < i → p j = false) : Nat :=
  if hp : p i = true then i
  else firstFrom p start h (i + 1) ⟨by omega, fun j hj hi => by
    by_cases e : j = i
    · simpa [e] using hp
    · exact tried.2 j hj (by omega)⟩
termination_by h.choose - i
decreasing_by
  have hm := h.choose_spec
  have hne : h.choose ≠ i := fun e => hp (e ▸ hm.2)
  have hle : i ≤ h.choose := by
    apply Nat.le_of_not_lt
    intro hlt
    have := tried.2 _ hm.1 hlt
    simp [hm.2] at this
  omega

end Random

/-- A stream of random words, of which `drawn` are used up. No draw waits for ever on it. -/
structure Source where
  word : Nat → UInt64
  drawn : Nat := 0
  live : ∀ range n, ∃ m, n ≤ m ∧ Random.accepts range (word m) = true

namespace Source

/-- A number below `range`, which must not be 0, and the source behind the words it took. From
the whole range of a word the word itself is taken. -/
def below (s : Source) (range : Nat) : Nat × Source :=
  if range < Random.wordBound then
    let place := Random.firstFrom (fun m => Random.accepts range (s.word m)) s.drawn
      (s.live range s.drawn) s.drawn ⟨Nat.le_refl _, fun _ h h' => absurd h' (Nat.not_lt.2 h)⟩
    (Random.scale range (s.word place), { s with drawn := place + 1 })
  else ((s.word s.drawn).toNat, { s with drawn := s.drawn + 1 })

/-- A number from `lo` to `hi`, both included; nothing if there is none. -/
def uniform (s : Source) (lo hi : Nat) : Option (Nat × Source) :=
  if lo ≤ hi then
    let (n, s) := s.below (hi - lo + 1)
    some (lo + n, s)
  else none

end Source

end EchoLoad
