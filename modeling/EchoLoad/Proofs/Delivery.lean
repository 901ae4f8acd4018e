import EchoLoad.Proofs.Wire
/-!
Frames read from a stream that is delivered in pieces. Wherever the stream is cut and whenever it
makes the reader wait, the payloads that were framed are read in order, and the bytes behind the last
frame stay on the stream. Main statements: `fill_delivered` for so many bytes, `decode_delivered` for
one frame, and `decodes_frames`.
-/

namespace EchoLoad

namespace Piece

def content : List Piece → Bytes
  | [] => []
  | .bytes b :: rest => b ++ content rest
  | .wait :: rest | .fault _ :: rest => content rest

/-- A piece that neither ends the stream nor breaks it: some bytes, or a wait. -/
def Delivers : Piece → Prop
  | .bytes b => b ≠ []
  | .wait => True
  | .fault _ => False

instance (p : Piece) : Decidable p.Delivers := by
  cases p <;> unfold Delivers <;> infer_instance

variable {pieces : List Piece}

/-- Bytes that are on their way are read, though perhaps not all at once. -/
theorem read_delivered {n : Nat} (hp : ∀ p ∈ pieces, p.Delivers) (hn : 0 < n)
    (hc : content pieces ≠ []) :
    ∃ b rest, read pieces n = .data b rest ∧ b ≠ [] ∧ b.length ≤ n ∧
      content pieces = b ++ content rest ∧ ∀ p ∈ rest, p.Delivers := by
  induction pieces with
  | nil => exact (hc rfl).elim
  | cons p pieces ih =>
    have hrest : ∀ p ∈ pieces, p.Delivers := fun q hq => hp q (List.mem_cons_of_mem _ hq)
    have hhead := hp p List.mem_cons_self
    cases p with
    | wait => exact ih hrest hc
    | fault e => exact hhead.elim
    | bytes b =>
      have hlen : 0 < b.length := List.length_pos_iff.2 hhead
      by_cases hcut : n < b.length
      · refine ⟨b.take n, .bytes (b.drop n) :: pieces, ?_, ?_, ?_, ?_, ?_⟩
        · simp [read, hcut]
        · intro h
          have := congrArg List.length h
          simp only [List.length_take, List.length_nil] at this
          omega
        · simp only [List.length_take]
          omega
        · rw [content, content, ← List.append_assoc, List.take_append_drop]
        · intro q hq
          rcases List.mem_cons.1 hq with rfl | hq
          · intro h
            have := congrArg List.length h
            simp only [List.length_drop, List.length_nil] at this
            omega
          · exact hrest q hq
      · exact ⟨b, pieces, by simp [read, hcut], hhead, Nat.le_of_not_lt hcut, rfl, hrest⟩

/-- When no bytes are on their way the stream has ended, after whatever waits are left. -/
theorem read_exhausted (n : Nat) (hp : ∀ p ∈ pieces, p.Delivers) (hc : content pieces = []) :
    read pieces n = .data [] [] := by
  induction pieces with
  | nil => rfl
  | cons p pieces ih =>
    have hrest : ∀ p ∈ pieces, p.Delivers := fun q hq => hp q (List.mem_cons_of_mem _ hq)
    have hhead := hp p List.mem_cons_self
    cases p with
    | wait => exact ih hrest hc
    | fault e => exact hhead.elim
    | bytes b =>
      rw [content, List.append_eq_nil_iff] at hc
      exact (hhead hc.1).elim

end Piece

namespace Frame

open Piece

variable {limit : Nat} {pieces : List Piece}

/-- **So many bytes are read** if they are on their way, and what is behind them stays. -/
theorem fill_delivered (need : Nat) (hp : ∀ p ∈ pieces, p.Delivers)
    (hc : need ≤ (content pieces).length) :
    ∃ rest, fill Piece.read need pieces = some (.full ((content pieces).take need), rest) ∧
      content rest = (content pieces).drop need ∧ ∀ p ∈ rest, p.Delivers := by
  induction need using Nat.strongRecOn generalizing pieces with
  | ind need ih =>
    rw [fill]
    by_cases hzero : need = 0
    · rw [if_pos hzero]
      exact ⟨pieces, by simp [hzero], by simp [hzero], hp⟩
    · rw [if_neg hzero]
      have hne : content pieces ≠ [] := by
        intro h
        rw [h, List.length_nil] at hc
        omega
      obtain ⟨b, rest, hread, hb, hle, hsplit, hrest⟩ :=
        read_delivered hp (Nat.pos_of_ne_zero hzero) hne
      have hpos : 0 < b.length := List.length_pos_iff.2 hb
      rw [hsplit, List.length_append] at hc
      obtain ⟨rest', hfill, hcontent, hrest'⟩ :=
        ih (need - b.length) (by omega) hrest (by omega)
      refine ⟨rest', ?_, ?_, hrest'⟩
      · obtain ⟨x, xs, rfl⟩ := List.exists_cons_of_ne_nil hb
        rw [hread, hsplit, List.take_append, List.take_of_length_le hle]
        dsimp only
        rw [hfill]
        rfl
      · rw [hcontent, hsplit, List.drop_append, List.drop_of_length_le hle, List.nil_append]

/-- **One frame is read** from the pieces that bring it, and no byte behind it. -/
theorem decode_delivered {payload trailing : Bytes} (hsize : payload.length < lengthBound)
    (hlimit : payload.length ≤ limit) (hp : ∀ p ∈ pieces, p.Delivers)
    (hc : content pieces = wire payload ++ trailing) :
    ∃ rest, decode Piece.read limit pieces = some (.ok (some payload), rest) ∧
      content rest = trailing ∧ ∀ p ∈ rest, p.Delivers := by
  have hframe : content pieces = header payload.length ++ (payload ++ trailing) := by
    rw [hc, wire, List.append_assoc]
  obtain ⟨rest, hhead, hcontent, hrest⟩ := fill_delivered headerLength hp (by
    rw [hframe, List.length_append, header_length]
    exact Nat.le_add_right _ _)
  rw [hframe, List.take_left' (header_length _)] at hhead
  rw [hframe, List.drop_left' (header_length _)] at hcontent
  obtain ⟨rest', hbody, hcontent', hrest'⟩ := fill_delivered payload.length hrest (by
    rw [hcontent, List.length_append]
    exact Nat.le_add_right _ _)
  rw [hcontent, List.take_left] at hbody
  rw [hcontent, List.drop_left] at hcontent'
  refine ⟨rest', ?_, hcontent', hrest'⟩
  simp only [decode, hhead, declared_header hsize, if_neg (Nat.not_lt.2 hlimit), hbody]

theorem decode_exhausted (hp : ∀ p ∈ pieces, p.Delivers) (hc : content pieces = []) :
    decode Piece.read limit pieces = some (.ok none, []) := by
  have hfill : fill Piece.read headerLength pieces = some (.short 0, []) := by
    rw [fill, if_neg (by decide), read_exhausted _ hp hc]
  simp only [decode, hfill]

/-! ## Frame after frame -/

/-- Some decodings one after the other, also behind one that failed; `none` if one of them waits
for ever. -/
def decodes {σ : Type} (read : σ → Nat → Read σ) (limit : Nat) :
    Nat → σ → Option (List (Except FrameError (Option Bytes)) × σ)
  | 0, s => some ([], s)
  | n + 1, s =>
    match decode read limit s with
    | none => none
    | some (r, s) => (decodes read limit n s).map fun (rs, s) => (r :: rs, s)

/-- **Frames survive any delivery.** Payloads that fit the length field and the limit are framed,
and the frames, with any bytes behind them, are cut into pieces that are not empty, with waits
anywhere. As many decodings as there are payloads give these payloads in order and leave exactly the
bytes behind the frames; if there are none the next decoding finds the end of the stream. -/
theorem decodes_frames {payloads : List Bytes} (trailing : Bytes)
    (hsize : ∀ p ∈ payloads, p.length < lengthBound) (hlimit : ∀ p ∈ payloads, p.length ≤ limit) :
    ∃ frames, payloads.mapM encode = .ok frames ∧
      ∀ pieces, (∀ p ∈ pieces, p.Delivers) → content pieces = frames.flatten ++ trailing →
        ∃ rest, decodes Piece.read limit payloads.length pieces =
            some (payloads.map fun p => .ok (some p), rest) ∧
          content rest = trailing ∧ (∀ p ∈ rest, p.Delivers) ∧
          (trailing = [] → decode Piece.read limit rest = some (.ok none, [])) := by
  refine ⟨payloads.map wire, mapM_encode hsize, ?_⟩
  induction payloads with
  | nil =>
    intro pieces hp hc
    exact ⟨pieces, rfl, hc, hp, fun ht => decode_exhausted hp (hc.trans ht)⟩
  | cons payload payloads ih =>
    intro pieces hp hc
    rw [List.map_cons, List.flatten_cons, List.append_assoc] at hc
    obtain ⟨rest, hdecode, hcontent, hrest⟩ := decode_delivered
      (hsize _ List.mem_cons_self) (hlimit _ List.mem_cons_self) hp hc
    obtain ⟨rest', hdecodes, hleft⟩ := ih (fun q hq => hsize q (List.mem_cons_of_mem _ hq))
      (fun q hq => hlimit q (List.mem_cons_of_mem _ hq)) rest hrest hcontent
    refine ⟨rest', ?_, hleft⟩
    simp only [List.length_cons, decodes, hdecode, hdecodes, Option.map_some, List.map_cons]

/-- Three payloads, one of them empty, cut inside a header and across frames, and one byte more. -/
theorem decodes_frames_three :
    ∃ rest, decodes Piece.read 2 3 [.bytes [0, 0], .wait, .bytes [0, 2, 7], .bytes [8, 0, 0, 0],
        .wait, .wait, .bytes [0, 0, 0, 0, 1, 9, 5], .wait] =
      some ([.ok (some [7, 8]), .ok (some []), .ok (some [9])], rest) ∧
      content rest = [5] := by
  obtain ⟨frames, hframes, h⟩ := @decodes_frames 2 [[7, 8], [], [9]] [5] (by decide) (by decide)
  obtain rfl : frames = [[0, 0, 0, 2, 7, 8], [0, 0, 0, 0], [0, 0, 0, 1, 9]] := by
    have hok := hframes.symm
    rw [mapM_encode (by decide)] at hok
    exact (Except.ok.inj hok).trans (by decide)
  obtain ⟨rest, hdecodes, hcontent, -⟩ := h [.bytes [0, 0], .wait, .bytes [0, 2, 7],
    .bytes [8, 0, 0, 0], .wait, .wait, .bytes [0, 0, 0, 0, 1, 9, 5], .wait] (by decide) (by decide)
  exact ⟨rest, hdecodes, hcontent⟩

end Frame

end EchoLoad
