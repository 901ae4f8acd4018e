import EchoLoad.Random
/-!
The SplitMix64 generator: a counter advanced by an odd constant, each state mixed by an
invertible hash. Its words return to 0 once per period, so every draw from it ends.
-/

namespace EchoLoad.SplitMix

def increment : UInt64 := 0x9E3779B97F4A7C15

def mix (z : UInt64) : UInt64 :=
  let z := (z ^^^ (z >>> 30)) * 0xBF58476D1CE4E5B9
  let z := (z ^^^ (z >>> 27)) * 0x94D049BB133111EB
  z ^^^ (z >>> 31)

/-- Word `n` of the stream that starts from `seed`. -/
def word (seed : UInt64) (n : Nat) : UInt64 := mix (seed + UInt64.ofNat (n + 1) * increment)

/-- The inverse of the increment modulo `2 ^ 64`. -/
def inverse : UInt64 := 0xF1DE83E19937733D

theorem inverse_mul_increment : inverse * increment = 1 := by decide

/-- Behind every place of the stream there is a 0. -/
theorem word_eq_zero (seed : UInt64) (n : Nat) : ∃ m, n ≤ m ∧ word seed m = 0 := by
  refine ⟨(inverse * (0 - seed)).toNat + 18446744073709551616 * (n + 1) - 1, by omega, ?_⟩
  have h : UInt64.ofNat ((inverse * (0 - seed)).toNat + 18446744073709551616 * (n + 1))
      = inverse * (0 - seed) := by
    apply UInt64.toNat.inj
    rw [UInt64.toNat_ofNat']
    have := (inverse * (0 - seed)).toNat_lt
    omega
  have hz : seed + inverse * (0 - seed) * increment = 0 := by
    have : inverse * (0 - seed) * increment = 0 - seed := by
      rw [UInt64.mul_comm inverse, UInt64.mul_assoc, inverse_mul_increment, UInt64.mul_one]
    rw [this, UInt64.zero_sub, UInt64.add_right_neg]
  rw [word, Nat.sub_add_cancel (by omega), h, hz]
  decide

/-- The words of a script, then those of the generator. -/
def source (script : Array UInt64) (seed : UInt64) : Source where
  word n := if h : n < script.size then script[n] else word seed (n - script.size)
  live range n := by
    obtain ⟨m, hm, hz⟩ := word_eq_zero seed n
    refine ⟨script.size + m, by omega, ?_⟩
    rw [dif_neg (by omega), show script.size + m - script.size = m by omega, hz]
    exact Random.accepts_zero range

end EchoLoad.SplitMix
