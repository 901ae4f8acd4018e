import EchoLoad.Frame.Decoder
/-!
Frames on the wire. A length has one header, a payload that fits it has one frame, and whoever has
decoded a payload has taken exactly its frame off the stream. Main statements: `mapM_encode` and
`decode_takes`.
-/

namespace EchoLoad.Frame

/-! ## The length field -/

theorem header_length (n : Nat) : (header n).length = headerLength := rfl

theorem declared_header {n : Nat} (h : n < lengthBound) : declared (header n) = n := by
  simp only [lengthBound] at h
  simp [declared, header, Nat.toUInt8, UInt8.toNat_ofNat']
  omega

theorem eq_header_declared {head : Bytes} (h : head.length = headerLength) :
    head = header (declared head) := by
  obtain ⟨a, b, c, d, rfl⟩ : ∃ a b c d, head = [a, b, c, d] := by
    match head, h with
    | [a, b, c, d], _ => exact ⟨a, b, c, d, rfl⟩
  have ha := a.toNat_lt
  have hb := b.toNat_lt
  have hc := c.toNat_lt
  have hd := d.toNat_lt
  simp only [declared, header, List.foldl_cons, List.foldl_nil, List.cons.injEq, and_true]
  refine ⟨?_, ?_, ?_, ?_⟩ <;>
  · apply UInt8.toNat_inj.1
    simp only [Nat.toUInt8, UInt8.toNat_ofNat']
    omega

theorem declared_lt {head : Bytes} (h : head.length = headerLength) :
    declared head < lengthBound := by
  match head, h with
  | [a, b, c, d], _ =>
    have ha := a.toNat_lt
    have hb := b.toNat_lt
    have hc := c.toNat_lt
    have hd := d.toNat_lt
    simp only [declared, List.foldl_cons, List.foldl_nil, lengthBound]
    omega

/-! ## Frames -/

theorem encode_eq_ok {payload frame : Bytes} :
    encode payload = .ok frame ↔ payload.length < lengthBound ∧ frame = wire payload := by
  unfold encode
  split
  · next h => simp [h, eq_comm]
  · next h => simp [h]

theorem mapM_encode {payloads : List Bytes} (h : ∀ p ∈ payloads, p.length < lengthBound) :
    payloads.mapM encode = .ok (payloads.map wire) := by
  induction payloads with
  | nil => rfl
  | cons p payloads ih =>
    have hp : encode p = .ok (wire p) := encode_eq_ok.2 ⟨h p List.mem_cons_self, rfl⟩
    have hrest := ih fun q hq => h q (List.mem_cons_of_mem _ hq)
    rw [List.mapM_cons, hp, hrest]
    rfl

/-! ## What decoding takes off a stream -/

variable {σ : Type} {read : σ → Nat → Read σ} {taken : σ → Bytes} {s s' : σ}

/-- A read gives no more than was asked for, and what it gives is what it takes. -/
def Tracks (read : σ → Nat → Read σ) (taken : σ → Bytes) : Prop :=
  ∀ s n b s', read s n = .data b s' → b.length ≤ n ∧ taken s' = taken s ++ b

theorem fill_takes (hr : Tracks read taken) {need : Nat} {bytes : Bytes}
    (h : fill read need s = some (.full bytes, s')) :
    bytes.length = need ∧ taken s' = taken s ++ bytes := by
  fun_induction fill read need s generalizing bytes s' with
  | case1 s =>
    cases h
    simp
  | case2 => cases h
  | case3 => cases h
  | case4 => cases h
  | case5 need s hn b bs rest he ih =>
    obtain ⟨⟨f, s1⟩, hf, heq⟩ := Option.map_eq_some_iff.1 h
    cases f with
    | full more =>
      cases heq
      obtain ⟨hle, htaken⟩ := hr _ _ _ _ he
      obtain ⟨hlen, hmore⟩ := ih hf
      constructor
      · rw [List.length_append, hlen]
        omega
      · rw [hmore, htaken, List.append_assoc]
    | short n => cases heq
    | failed e => cases heq

/-- **Decoding a payload takes its frame**, and no byte of the next one. -/
theorem decode_takes (hr : Tracks read taken) {limit : Nat} {payload : Bytes}
    (h : decode read limit s = some (.ok (some payload), s')) :
    taken s' = taken s ++ wire payload := by
  unfold decode at h
  split at h <;> try cases h
  next head s1 hhead =>
  obtain ⟨hlen, htaken⟩ := fill_takes hr hhead
  dsimp only at h
  split at h
  · cases h
  split at h <;> cases h
  next hbody =>
  obtain ⟨hsize, htaken'⟩ := fill_takes hr hbody
  rw [htaken', htaken, List.append_assoc, wire, hsize, ← eq_header_declared hlen]

end EchoLoad.Frame
