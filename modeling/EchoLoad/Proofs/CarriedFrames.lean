import EchoLoad.Proofs.Exchange
import EchoLoad.Proofs.Wire
/-!
Connections that carried whole frames only, the same ones out and back. Requests and replies have no
number, so an echo counts only if the bytes read are those of the request, whatever else waits to be
read. Main statement: `exchange_carriesFrames`.
-/

namespace EchoLoad.Connection

variable {c c' : Connection} {payload : Bytes} {payloads : List Bytes}

/-- The bytes that the peer accepted are the frames of some payloads, and so are the bytes that the
client read. -/
def CarriesFrames (c : Connection) (payloads : List Bytes) : Prop :=
  ∃ frames, payloads.mapM Frame.encode = .ok frames ∧
    c.accepted = frames.flatten ∧ c.consumed = frames.flatten

theorem CarriesFrames.congr (h : c.CarriesFrames payloads) (hw : c'.written = c.written)
    (ht : c'.taken = c.taken) : c'.CarriesFrames payloads := by
  obtain ⟨frames, hframes, haccepted, hconsumed⟩ := h
  refine ⟨frames, hframes, ?_, ?_⟩
  · rw [accepted, hw]
    exact haccepted
  · rw [consumed, ht]
    exact hconsumed

theorem CarriesFrames.append (h : c.CarriesFrames payloads)
    (hsize : payload.length < Frame.lengthBound)
    (hw : c'.accepted = c.accepted ++ Frame.wire payload)
    (ht : c'.consumed = c.consumed ++ Frame.wire payload) :
    c'.CarriesFrames (payloads ++ [payload]) := by
  obtain ⟨frames, hframes, haccepted, hconsumed⟩ := h
  have hencode : [payload].mapM Frame.encode = .ok [Frame.wire payload] :=
    Frame.mapM_encode (by simpa using hsize)
  refine ⟨frames ++ [Frame.wire payload], ?_, ?_, ?_⟩
  · rw [List.mapM_append, hframes, hencode]
    rfl
  · rw [hw, haccepted, List.flatten_append, List.flatten_singleton]
  · rw [ht, hconsumed, List.flatten_append, List.flatten_singleton]

/-! ## What one exchange moves -/

theorem cut_front (chunk : Option Nat) (bytes : Bytes) : cut chunk bytes <+: bytes := by
  cases chunk with
  | none => exact List.prefix_refl bytes
  | some n => exact List.take_prefix n bytes

/-- A request that is written without an error is accepted as a whole, in however many pieces. -/
theorem writeAll_accepts {allowance : Option (Nat × IoError)} {bytes : Bytes}
    (h : c.writeAll allowance bytes = (c', none)) :
    c'.accepted = c.accepted ++ bytes ∧ c'.taken = c.taken := by
  fun_induction writeAll allowance c bytes with
  | case1 =>
    cases h
    simp
  | case2 => cases h
  | case3 allowance c bytes hb piece hp ha =>
    dsimp only at h
    rw [if_pos hp] at h
    cases h
  | case4 allowance c bytes hb piece hp ha ih =>
    dsimp only at h
    rw [if_neg hp] at h
    obtain ⟨haccepted, htaken⟩ := ih h
    have hpiece : piece <+: bytes := (cut_front _ _).trans (cut_front _ _)
    have hsplit : piece ++ bytes.drop piece.length = bytes := List.prefix_iff_eq_append.1 hpiece
    constructor
    · rw [haccepted]
      simp only [accepted, List.reverse_cons, List.flatten_append, List.flatten_singleton,
        List.append_assoc]
      rw [hsplit]
    · exact htaken

theorem read_tracks (deadline : Option Duration) :
    Frame.Tracks (read deadline) fun s => s.2.consumed := by
  rintro ⟨now, c⟩ n b s' h
  simp only [read] at h
  split at h
  · cases h
  · split at h
    · cases h
    · split at h <;> cases h
      · simp
      · constructor
        · rw [List.length_take]
          exact Nat.min_le_left _ _
        · simp [consumed]

theorem firstDifference_eq_none {a b : Bytes} (hlen : b.length = a.length)
    (h : firstDifference a b = none) : b = a := by
  induction a generalizing b with
  | nil => exact List.length_eq_zero_iff.1 hlen
  | cons x a ih =>
    obtain ⟨y, b, rfl⟩ := List.exists_cons_of_length_eq_add_one hlen
    rw [List.length_cons, List.length_cons] at hlen
    rw [firstDifference] at h
    split at h
    · next hxy => rw [hxy, ih (by omega) (Option.map_eq_none_iff.1 h)]
    · cases h

theorem verdict_eq_ok {latency latency' : Duration} {r : Except FrameError (Option Bytes)}
    (h : verdict payload latency r = .ok latency') : r = .ok (some payload) := by
  unfold verdict at h
  split at h <;> try cases h
  next echo =>
  split at h
  · cases h
  · next hlen =>
    split at h
    · cases h
    · next hdiff => rw [firstDifference_eq_none (Decidable.of_not_not hlen) hdiff]

/-- **An echo moves one frame** out and the same frame back, whatever was left to be read before. -/
theorem exchange_carriesFrames {now t latency : Duration} {limit : Option Duration}
    (hc : c.CarriesFrames payloads)
    (h : c.exchange now limit payload = (c', some (t, .ok latency))) :
    c'.CarriesFrames (payloads ++ [payload]) := by
  unfold exchange at h
  split at h
  · cases h
  next request hencode =>
  obtain ⟨hsize, rfl⟩ := Frame.encode_eq_ok.1 hencode
  dsimp only at h
  split at h
  · cases h
  next c1 hwrite =>
  obtain ⟨haccepted, htaken⟩ := writeAll_accepts hwrite
  split at h
  · cases h
  split at h
  · next r t' c2 hdecode =>
    obtain ⟨rfl, hending⟩ := Prod.mk.inj h
    have hverdict := (Prod.mk.inj (Option.some.inj hending)).2
    rw [verdict_eq_ok hverdict] at hdecode
    have hwritten : c2.written = c1.written :=
      Frame.decode_keeps (read_keeps (P := fun c => c.written = c1.written) _ fun _ _ _ h => h)
        _ _ rfl hdecode
    have hconsumed : c2.consumed = c1.consumed ++ Frame.wire payload :=
      Frame.decode_takes (read_tracks _) hdecode
    apply hc.append hsize
    · rw [accepted, hwritten]
      exact haccepted
    · rw [hconsumed, consumed, htaken]
      rfl
  · cases limit <;> cases h

end EchoLoad.Connection
