import EchoLoad.Payload
/-!
Draws stay in their range, and there is a source for every draw that a word has room for. Main
statements: `Source.uniform_mem`, `Source.exists_below`, `PayloadSize.sample_allows` and
`Payload.fill_length`.
-/

namespace EchoLoad

theorem Random.scale_lt {range : Nat} (h : 0 < range) (word : UInt64) :
    scale range word < range := by
  have hword : word.toNat < wordBound := word.toNat_lt
  rw [scale, Nat.div_lt_iff_lt_mul (by decide), Nat.mul_comm range]
  exact Nat.mul_lt_mul_of_pos_right hword h

namespace Source

variable {s s' : Source} {lo hi n range : Nat}

theorem below_lt (s : Source) (h : 0 < range) : (s.below range).1 < range := by
  unfold below
  split
  · exact Random.scale_lt h _
  · next hle => exact Nat.lt_of_lt_of_le (s.word s.drawn).toNat_lt (Nat.le_of_not_lt hle)

theorem uniform_mem (h : s.uniform lo hi = some (n, s')) : lo ≤ n ∧ n ≤ hi := by
  unfold uniform at h
  split at h
  · next hle =>
    have hlt := s.below_lt (show 0 < hi - lo + 1 by omega)
    simp only [Option.some.injEq, Prod.mk.injEq] at h
    omega
  · cases h

theorem uniform_ne_none (h : lo ≤ hi) : s.uniform lo hi ≠ none := by
  rw [uniform, if_pos h]
  exact fun hn => by cases hn

theorem firstFrom_start {p : Nat → Bool} {start : Nat} (hp : p start = true)
    (h : ∃ m, start ≤ m ∧ p m = true)
    (tried : start ≤ start ∧ ∀ j, start ≤ j → j < start → p j = false) :
    Random.firstFrom p start h start tried = start := by
  rw [Random.firstFrom, dif_pos hp]

def ofWord (word : UInt64) : Source where
  word n := if n = 0 then word else 0
  live range n := ⟨n + 1, Nat.le_succ n, by simp [Random.accepts_zero]⟩

theorem exists_scale (hn : n < range) (hr : range < Random.wordBound) :
    ∃ word, Random.accepts range word = true ∧ Random.scale range word = n := by
  have hlt : n * Random.wordBound + (range - 1) < range * Random.wordBound := by
    have hle : (n + 1) * Random.wordBound ≤ range * Random.wordBound :=
      Nat.mul_le_mul_right _ hn
    rw [Nat.succ_mul] at hle
    omega
  -- the word is `n` in units of the range, rounded up, so that little is left over
  let word := (n * Random.wordBound + (range - 1)) / range
  have hword : word < Random.wordBound := Nat.div_lt_of_lt_mul hlt
  have hleft : word * range + (n * Random.wordBound + (range - 1)) % range =
      n * Random.wordBound + (range - 1) := by
    rw [Nat.mul_comm]
    exact Nat.div_add_mod _ _
  have hmod := Nat.mod_lt (n * Random.wordBound + (range - 1)) (show 0 < range by omega)
  obtain ⟨rest, hrest, hproduct⟩ : ∃ rest < range, word * range = n * Random.wordBound + rest :=
    ⟨word * range - n * Random.wordBound, by omega, by omega⟩
  have htoNat : (UInt64.ofNat word).toNat = word := UInt64.toNat_ofNat_of_lt hword
  refine ⟨UInt64.ofNat word, ?_, ?_⟩
  · have hzone : range ≤ range * Nat.pow 2 (63 - range.log2) :=
      Nat.le_mul_of_pos_right _ (Nat.pow_pos (by decide))
    have hkept : word * range % Random.wordBound ≤ Random.zone range := by
      rw [hproduct, Nat.mul_add_mod_self_right, Nat.mod_eq_of_lt (Nat.lt_trans hrest hr), Random.zone]
      omega
    simpa [Random.accepts, htoNat] using hkept
  · rw [Random.scale, htoNat, hproduct, Nat.add_comm, Nat.add_mul_div_right _ _ (by decide),
      Nat.div_eq_of_lt (Nat.lt_trans hrest hr), Nat.zero_add]

/-- **Every number below the range that fits a word can be drawn.** -/
theorem exists_below (hn : n < range) (hword : n < Random.wordBound) :
    ∃ s : Source, (s.below range).1 = n := by
  by_cases hr : range < Random.wordBound
  · obtain ⟨word, haccepts, hscale⟩ := exists_scale hn hr
    refine ⟨ofWord word, ?_⟩
    rw [below, if_pos hr, firstFrom_start haccepts]
    exact hscale
  · refine ⟨ofWord (UInt64.ofNat n), ?_⟩
    rw [below, if_neg hr]
    exact UInt64.toNat_ofNat_of_lt hword

end Source

namespace PayloadSize

/-- The lengths that payloads may have. -/
def Allows : PayloadSize → Nat → Prop
  | .fixed m, n => n = m
  | .uniform lo hi, n => lo ≤ n ∧ n ≤ hi

variable {size : PayloadSize} {s s' : Source} {n : Nat}

theorem sample_allows (h : size.sample s = some (n, s')) : size.Allows n := by
  cases size with
  | fixed m => cases h; rfl
  | uniform lo hi => exact Source.uniform_mem h

theorem Allows.le_maxLength (h : size.Allows n) : n ≤ size.maxLength := by
  cases size with
  | fixed m => exact Nat.le_of_eq h
  | uniform lo hi => exact h.2

theorem sample_ne_none (h : size.Allows n) : size.sample s ≠ none := by
  cases size with
  | fixed m => exact fun hn => by cases hn
  | uniform lo hi => exact Source.uniform_ne_none (Nat.le_trans h.1 h.2)

theorem exists_sample_ge {lo hi bound : Nat} (hle : lo ≤ hi) (hreach : bound ≤ hi)
    (hword : bound < Random.wordBound) :
    ∃ s n s', (PayloadSize.uniform lo hi).sample s = some (n, s') ∧ bound ≤ n := by
  let offset := min (hi - lo) (Random.wordBound - 1)
  have hoffset : offset < hi - lo + 1 := by omega
  have hfits : offset < Random.wordBound := by
    have hpos : 0 < Random.wordBound := by decide
    omega
  obtain ⟨s, hs⟩ := Source.exists_below hoffset hfits
  refine ⟨s, lo + offset, (s.below (hi - lo + 1)).2, ?_, by omega⟩
  rw [sample, Source.uniform, if_pos hle, ← hs]

end PayloadSize

namespace Payload

theorem draw_length (n : Nat) (s : Source) (drawn : Bytes) :
    (draw n s drawn).1.length = n + drawn.length := by
  induction n generalizing s drawn with
  | zero => simp [draw]
  | succ n ih =>
    rw [draw, ih, List.length_cons]
    omega

theorem fill_length (n : Nat) (s : Source) : (fill n s).1.length = n := by
  simp [fill, draw_length]

end Payload

end EchoLoad
