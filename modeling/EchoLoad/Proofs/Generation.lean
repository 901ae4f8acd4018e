import EchoLoad.Proofs.Payload
import EchoLoad.Random.SplitMix
import Mathlib.Data.List.Basic
/-!
Payload generation, word by word. A draw from a range of words, written out in words alone: a size
that wraps around, a zone that is a shifted size, and the halves of a product of 128 bits. A source
draws so. Main statement: `payloads_generated`.
-/

namespace EchoLoad

namespace Random

/-! ## A draw in words -/

/-- How many words there are from `lo` to `hi`; 0 if it is all of them. -/
def span (lo hi : UInt64) : UInt64 := hi - lo + 1

/-- The size of a range, shifted until its highest bit is that of a word, less one. -/
def wordZone (r : UInt64) : UInt64 := (r <<< UInt64.ofNat (63 - r.toNat.log2)) - 1

def product (v r : UInt64) : BitVec 128 := v.toBitVec.setWidth 128 * r.toBitVec.setWidth 128

def highHalf (v r : UInt64) : UInt64 := .ofBitVec ((product v r).extractLsb' 64 64)

def lowHalf (v r : UInt64) : UInt64 := .ofBitVec ((product v r).extractLsb' 0 64)

/-- A draw of a word from `lo` to `hi` on any stream: it starts at one place, gives a word, and
leaves off at another place. -/
inductive Draws (word : Nat → UInt64) (lo hi : UInt64) : Nat → UInt64 → Nat → Prop where
  | whole {start : Nat} (h : span lo hi = 0) : Draws word lo hi start (word start) (start + 1)
  | kept {start : Nat} (h : span lo hi ≠ 0)
      (hkept : lowHalf (word start) (span lo hi) ≤ wordZone (span lo hi)) :
      Draws word lo hi start (lo + highHalf (word start) (span lo hi)) (start + 1)
  | again {start next : Nat} {n : UInt64} (h : span lo hi ≠ 0)
      (hrejected : wordZone (span lo hi) < lowHalf (word start) (span lo hi))
      (rest : Draws word lo hi (start + 1) n next) : Draws word lo hi start n next

variable {word : Nat → UInt64} {lo hi r v n : UInt64} {start next : Nat}

theorem toNat_span (h : lo ≤ hi) :
    (span lo hi).toNat = (hi.toNat - lo.toNat + 1) % wordBound := by
  rw [span, UInt64.toNat_add, UInt64.toNat_sub_of_le _ _ h]
  rfl

theorem toNat_product (v r : UInt64) : (product v r).toNat = v.toNat * r.toNat := by
  have hlt : v.toNat * r.toNat < 2 ^ 64 * 2 ^ 64 := Nat.mul_lt_mul'' v.toNat_lt r.toNat_lt
  have hwide : ∀ w : UInt64, (w.toBitVec.setWidth 128).toNat = w.toNat := fun w =>
    BitVec.toNat_setWidth_of_le (by decide)
  rw [product, BitVec.toNat_mul, hwide, hwide]
  exact Nat.mod_eq_of_lt hlt

theorem toNat_lowHalf (v r : UInt64) : (lowHalf v r).toNat = v.toNat * r.toNat % wordBound := by
  rw [lowHalf, UInt64.toNat_ofBitVec, BitVec.extractLsb'_toNat, toNat_product, Nat.shiftRight_zero]
  rfl

theorem toNat_highHalf (v r : UInt64) : (highHalf v r).toNat = scale r.toNat v := by
  have hlt : v.toNat * r.toNat / wordBound < wordBound :=
    Nat.div_lt_of_lt_mul (Nat.mul_lt_mul'' v.toNat_lt r.toNat_lt)
  rw [highHalf, UInt64.toNat_ofBitVec, BitVec.extractLsb'_toNat, toNat_product,
    Nat.shiftRight_eq_div_pow]
  exact Nat.mod_eq_of_lt hlt

theorem toNat_wordZone (h : r ≠ 0) : (wordZone r).toNat = zone r.toNat := by
  have hr : r.toNat ≠ 0 := fun h0 => h (UInt64.toNat_inj.1 h0)
  have hlog : r.toNat.log2 < 64 := (Nat.log2_lt hr).2 r.toNat_lt
  -- shifted by its leading zeros, the size still fits a word
  have hfits : r.toNat * 2 ^ (63 - r.toNat.log2) < 2 ^ 64 := by
    calc r.toNat * 2 ^ (63 - r.toNat.log2)
        < 2 ^ (r.toNat.log2 + 1) * 2 ^ (63 - r.toNat.log2) :=
          Nat.mul_lt_mul_of_pos_right (Nat.lt_log2_self) (Nat.pow_pos (by decide))
      _ = 2 ^ 64 := by rw [← Nat.pow_add]; congr 1; omega
  have hshift : (UInt64.ofNat (63 - r.toNat.log2)).toNat = 63 - r.toNat.log2 :=
    UInt64.toNat_ofNat_of_lt (Nat.lt_of_le_of_lt (Nat.sub_le _ _) (by decide))
  have hshifted : (r <<< UInt64.ofNat (63 - r.toNat.log2)).toNat =
      r.toNat * 2 ^ (63 - r.toNat.log2) := by
    rw [UInt64.toNat_shiftLeft, hshift, Nat.mod_eq_of_lt (show 63 - r.toNat.log2 < 64 by omega),
      Nat.shiftLeft_eq, Nat.mod_eq_of_lt hfits]
  have hone : (1 : UInt64) ≤ r <<< UInt64.ofNat (63 - r.toNat.log2) := by
    rw [UInt64.le_iff_toNat_le, hshifted]
    exact Nat.mul_pos (Nat.pos_of_ne_zero hr) (Nat.pow_pos (by decide))
  rw [wordZone, UInt64.toNat_sub_of_le _ _ hone, hshifted]
  rfl

theorem lowHalf_le_iff (hr : r ≠ 0) : lowHalf v r ≤ wordZone r ↔ accepts r.toNat v = true := by
  rw [UInt64.le_iff_toNat_le, toNat_lowHalf, toNat_wordZone hr, accepts, decide_eq_true_eq]

/-! ## Draws on any stream -/

/-- A size that has not wrapped around. -/
theorem toNat_span_of_ne (hle : lo ≤ hi) (h : span lo hi ≠ 0) :
    (span lo hi).toNat = hi.toNat - lo.toNat + 1 := by
  have hspan := toNat_span hle
  have hne : (span lo hi).toNat ≠ 0 := fun h0 => h (UInt64.toNat_inj.1 h0)
  have hhi := hi.toNat_lt
  unfold wordBound at hspan
  omega

/-- Only the range of all words has as many of them as wrap around. -/
theorem span_eq_zero (hle : lo ≤ hi) (h : span lo hi = 0) :
    hi.toNat - lo.toNat + 1 = wordBound := by
  have hspan := toNat_span hle
  rw [h, UInt64.toNat_zero] at hspan
  have hhi := hi.toNat_lt
  unfold wordBound at hspan ⊢
  omega

theorem toNat_add_highHalf (hle : lo ≤ hi) (h : span lo hi ≠ 0) (v : UInt64) :
    (lo + highHalf v (span lo hi)).toNat =
      lo.toNat + scale (hi.toNat - lo.toNat + 1) v := by
  have hlt := scale_lt (show 0 < hi.toNat - lo.toNat + 1 by omega) v
  have hle' := UInt64.le_iff_toNat_le.1 hle
  have hhi := hi.toNat_lt
  rw [UInt64.toNat_add, toNat_highHalf, toNat_span_of_ne hle h]
  exact Nat.mod_eq_of_lt (by omega)

/-- **A draw stays in its range**, on any stream and wherever it ends. -/
theorem Draws.bounds (hle : lo ≤ hi) (h : Draws word lo hi start n next) : lo ≤ n ∧ n ≤ hi := by
  have hle' := UInt64.le_iff_toNat_le.1 hle
  rw [UInt64.le_iff_toNat_le, UInt64.le_iff_toNat_le]
  induction h with
  | @whole start h =>
    have hwhole := span_eq_zero hle h
    have hhi := hi.toNat_lt
    have hword := (word start).toNat_lt
    unfold wordBound at hwhole
    omega
  | @kept start h hkept =>
    have hlt := scale_lt (show 0 < hi.toNat - lo.toNat + 1 by omega) (word start)
    rw [toNat_add_highHalf hle h]
    omega
  | again h hrejected rest ih => exact ih

/-- A stream leaves no choice. -/
theorem Draws.unique {n' : UInt64} {next' : Nat} (h : Draws word lo hi start n next)
    (h' : Draws word lo hi start n' next') : n = n' ∧ next = next' := by
  induction h with
  | whole h =>
    cases h' with
    | whole => exact ⟨rfl, rfl⟩
    | kept hne | again hne => exact absurd h hne
  | kept h hkept =>
    cases h' with
    | whole h0 => exact absurd h0 h
    | kept => exact ⟨rfl, rfl⟩
    | again _ hrejected => exact absurd hkept (UInt64.not_le.2 hrejected)
  | again h hrejected rest ih =>
    cases h' with
    | whole h0 => exact absurd h0 h
    | kept _ hkept => exact absurd hkept (UInt64.not_le.2 hrejected)
    | again _ _ rest' => exact ih rest'

/-- Rejected words are passed over. -/
theorem draws_of_kept {place : Nat} (h : span lo hi ≠ 0) (hle : start ≤ place)
    (hrejected : ∀ j, start ≤ j → j < place → accepts (span lo hi).toNat (word j) = false)
    (hkept : accepts (span lo hi).toNat (word place) = true) :
    Draws word lo hi start (lo + highHalf (word place) (span lo hi)) (place + 1) := by
  obtain ⟨gap, hgap⟩ := Nat.exists_eq_add_of_le hle
  induction gap generalizing start with
  | zero =>
    obtain rfl : place = start := hgap
    exact .kept h ((lowHalf_le_iff h).2 hkept)
  | succ gap ih =>
    have hfirst : ¬ lowHalf (word start) (span lo hi) ≤ wordZone (span lo hi) := by
      rw [lowHalf_le_iff h, hrejected start (Nat.le_refl _) (by omega)]
      exact Bool.false_ne_true
    exact .again h (UInt64.not_le.1 hfirst)
      (ih (by omega) (fun j hj => hrejected j (by omega)) (by omega))

theorem firstFrom_spec {p : Nat → Bool} {start i : Nat} (h : ∃ m, start ≤ m ∧ p m = true)
    (tried : start ≤ i ∧ ∀ j, start ≤ j → j < i → p j = false) :
    start ≤ firstFrom p start h i tried ∧ p (firstFrom p start h i tried) = true ∧
      ∀ j, start ≤ j → j < firstFrom p start h i tried → p j = false := by
  fun_induction firstFrom p start h i tried with
  | case1 i tried hp => exact ⟨tried.1, hp, tried.2⟩
  | case2 i tried hp ih => exact ih

/-- **A draw ends just if a word comes that is kept**, or if every word is. -/
theorem exists_draws_iff : (∃ n next, Draws word lo hi start n next) ↔
    span lo hi = 0 ∨
      ∃ m, start ≤ m ∧ lowHalf (word m) (span lo hi) ≤ wordZone (span lo hi) := by
  constructor
  · rintro ⟨n, next, h⟩
    induction h with
    | whole h => exact .inl h
    | @kept start h hkept => exact .inr ⟨start, Nat.le_refl _, hkept⟩
    | again h hrejected rest ih =>
      exact ih.imp_right fun ⟨m, hm, hkept⟩ => ⟨m, by omega, hkept⟩
  · rintro (h | ⟨m, hm, hkept⟩)
    · exact ⟨_, _, .whole h⟩
    · by_cases h : span lo hi = 0
      · exact ⟨_, _, .whole h⟩
      · have hsome : ∃ m, start ≤ m ∧ accepts (span lo hi).toNat (word m) = true :=
          ⟨m, hm, (lowHalf_le_iff h).1 hkept⟩
        have hfirst := firstFrom_spec hsome
          ⟨Nat.le_refl _, fun j hj hj' => absurd hj (Nat.not_le_of_lt hj')⟩
        exact ⟨_, _, draws_of_kept h hfirst.1 hfirst.2.2 hfirst.2.1⟩

end Random

/-! ## Draws from a source -/

/-- **A source draws in words.** -/
theorem Source.uniform_draws (s : Source) {lo hi : UInt64} (hle : lo ≤ hi) :
    ∃ n s', s.uniform lo.toNat hi.toNat = some (n.toNat, s') ∧
      Random.Draws s.word lo hi s.drawn n s'.drawn := by
  rw [Source.uniform, if_pos (UInt64.le_iff_toNat_le.1 hle), Source.below]
  by_cases h : Random.span lo hi = 0
  · have hwhole := Random.span_eq_zero hle h
    have hlo : lo.toNat = 0 := by
      have hhi := hi.toNat_lt
      unfold Random.wordBound at hwhole
      omega
    rw [if_neg (by omega), hlo]
    exact ⟨s.word s.drawn, { s with drawn := s.drawn + 1 }, by simp, .whole h⟩
  · have hspan := Random.toNat_span_of_ne hle h
    have hlt : hi.toNat - lo.toNat + 1 < Random.wordBound := by
      rw [← hspan]
      exact (Random.span lo hi).toNat_lt
    rw [if_pos hlt]
    have hfirst := Random.firstFrom_spec (s.live (hi.toNat - lo.toNat + 1) s.drawn)
      ⟨Nat.le_refl _, fun j hj hj' => absurd hj (Nat.not_le_of_lt hj')⟩
    refine ⟨_, { s with drawn := _ }, ?_, Random.draws_of_kept h hfirst.1 ?_ ?_⟩
    · rw [Random.toNat_add_highHalf hle h]
    · rw [hspan]
      exact hfirst.2.2
    · rw [hspan]
      exact hfirst.2.1

namespace Payload

variable {s : Source} {n : Nat}

/-! ## Symbols -/

theorem draw_eq (n : Nat) (s : Source) (drawn : Bytes) :
    draw n s drawn = ((draw n s []).1 ++ drawn, (draw n s []).2) := by
  induction n generalizing s drawn with
  | zero => rfl
  | succ n ih =>
    change draw n _ (_ :: drawn) = ((draw n _ [_]).1 ++ drawn, (draw n _ [_]).2)
    rw [ih, ih _ [_], List.append_assoc]
    rfl

theorem fill_succ (n : Nat) (s : Source) :
    fill (n + 1) s =
      (symbol (s.below symbolCount).1 :: (fill n (s.below symbolCount).2).1,
        (fill n (s.below symbolCount).2).2) := by
  have hdraw : draw (n + 1) s [] =
      draw n (s.below symbolCount).2 [symbol (s.below symbolCount).1] := rfl
  unfold fill
  rw [hdraw, draw_eq]
  simp

/-- **A payload in two parts.** -/
theorem fill_add (n m : Nat) (s : Source) :
    fill (n + m) s = ((fill n s).1 ++ (fill m (fill n s).2).1, (fill m (fill n s).2).2) := by
  induction n generalizing s with
  | zero => rw [Nat.zero_add]; rfl
  | succ n ih => rw [Nat.succ_add, fill_succ, fill_succ, ih, List.cons_append]

/-- **A payload is made of symbols.** -/
theorem mem_fill : ∀ b ∈ (fill n s).1, b ∈ symbols := by
  induction n generalizing s with
  | zero => exact fun b hb => (List.not_mem_nil hb).elim
  | succ n ih =>
    intro b hb
    rw [fill_succ] at hb
    obtain rfl | hb := List.mem_cons.1 hb
    · exact List.mem_map_of_mem (List.mem_range.2 (s.below_lt (by decide)))
    · exact ih b hb

/-- The symbols, written out. -/
example : symbols =
    "0123456789@ABCDEFGHIJKLMNOPQRSTUVWXYZabcdefghijklmnopqrstuvwxyz".toUTF8.toList := by
  decide +kernel

theorem encode_symbol : ∀ b ∈ symbols, String.utf8EncodeChar (Char.ofNat b.toNat) = [b] := by
  decide +kernel

theorem valid_of_symbols {bytes : Bytes} (h : ∀ b ∈ bytes, b ∈ symbols) :
    bytes.toByteArray.IsValidUTF8 := by
  refine ⟨bytes.map fun b => Char.ofNat b.toNat, ?_⟩
  have hencode : (bytes.map fun b => Char.ofNat b.toNat).flatMap String.utf8EncodeChar = bytes := by
    rw [List.flatMap_map]
    calc bytes.flatMap (fun b => String.utf8EncodeChar (Char.ofNat b.toNat))
        = bytes.flatMap fun b => [b] :=
          List.flatMap_congr fun b hb => encode_symbol b (h b hb)
      _ = bytes := List.flatMap_singleton' bytes
  rw [List.utf8Encode, hencode]

theorem refill_eq (buffer : Bytes) (n : Nat) (s : Source) : refill buffer n s = fill n s := rfl

end Payload

/-- **Payload generation.** A fixed length is given as it is and draws nothing. A length between two
words is drawn in words: on any stream it lies between them if the draw ends, and the draw ends just
if a word comes that is kept; on a source it does end. A payload of `n` symbols has `n` bytes, all of
them symbols and so a text, whatever the buffer held. Two payloads, one after the other in the same
buffer, are the two parts of one. -/
theorem payloads_generated (s : Source) (buffer : Bytes) :
    (∀ length, (PayloadSize.fixed length).sample s = some (length, s) ∧
      length ≤ (PayloadSize.fixed length).maxLength) ∧
    (∀ lo hi : UInt64, lo ≤ hi →
      (∀ word start,
        (∀ n next, Random.Draws word lo hi start n next → lo ≤ n ∧ n ≤ hi) ∧
        ((∃ n next, Random.Draws word lo hi start n next) ↔ Random.span lo hi = 0 ∨
          ∃ m, start ≤ m ∧ Random.lowHalf (word m) (Random.span lo hi) ≤
            Random.wordZone (Random.span lo hi))) ∧
      ∃ n s', (PayloadSize.uniform lo.toNat hi.toNat).sample s = some (n.toNat, s') ∧
        lo ≤ n ∧ n ≤ hi ∧ n.toNat ≤ (PayloadSize.uniform lo.toNat hi.toNat).maxLength ∧
        Random.Draws s.word lo hi s.drawn n s'.drawn) ∧
    (∀ n, let filled := Payload.refill buffer n s
      filled.1.length = n ∧ (∀ b ∈ filled.1, b ∈ Payload.symbols) ∧
        filled.1.toByteArray.IsValidUTF8 ∧ ∀ other, Payload.refill other n s = filled) ∧
    ∀ n m, let first := Payload.refill buffer n s
      let second := Payload.refill first.1 m first.2
      Payload.refill buffer (n + m) s = (first.1 ++ second.1, second.2) := by
  refine ⟨fun length => ⟨rfl, Nat.le_refl _⟩, fun lo hi hle => ⟨fun word start =>
    ⟨fun n next h => h.bounds hle, Random.exists_draws_iff⟩, ?_⟩, fun n => ?_, fun n m => ?_⟩
  · obtain ⟨n, s', hsample, hdraws⟩ := s.uniform_draws hle
    obtain ⟨hlo, hhi⟩ := hdraws.bounds hle
    exact ⟨n, s', hsample, hlo, hhi, UInt64.le_iff_toNat_le.1 hhi, hdraws⟩
  · rw [Payload.refill_eq]
    exact ⟨Payload.fill_length n s, Payload.mem_fill, Payload.valid_of_symbols Payload.mem_fill,
      fun other => Payload.refill_eq other n s⟩
  · intro first second
    rw [Payload.refill_eq]
    exact Payload.fill_add n m s

/-- A length from 4 to 6: the first word is rejected, since the low half of its product with 3 lies
outside the zone, and the second one is kept. From the range of all words the first one is taken as
it is. -/
theorem payloads_generated_rejected :
    let s := SplitMix.source #[0x5555555555555555, 0xC000000000000000] 0
    (∃ s', (PayloadSize.uniform 4 6).sample s = some (6, s') ∧ s'.drawn = 2) ∧
      ∃ s', (PayloadSize.uniform 0 18446744073709551615).sample s =
        some (0x5555555555555555, s') ∧ s'.drawn = 1 := by
  intro s
  obtain ⟨-, hlengths, -⟩ := payloads_generated s []
  constructor
  · obtain ⟨-, n, s', hsample, -, -, -, hdraws⟩ := hlengths 4 6 (by decide)
    have hkept : Random.Draws s.word 4 6 1 (4 + Random.highHalf (s.word 1) (Random.span 4 6)) 2 :=
      .kept (by decide) (by decide)
    obtain ⟨hn, hdrawn⟩ := hdraws.unique (.again (by decide) (by decide) hkept)
    have hsix : n.toNat = 6 := by
      rw [hn]
      decide
    rw [hsix] at hsample
    exact ⟨s', hsample, hdrawn⟩
  · obtain ⟨-, n, s', hsample, -, -, -, hdraws⟩ := hlengths 0 0xFFFFFFFFFFFFFFFF (by decide)
    obtain ⟨rfl, hdrawn⟩ := hdraws.unique (.whole (by decide))
    exact ⟨s', hsample, hdrawn⟩

end EchoLoad
