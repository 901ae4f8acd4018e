import EchoLoad.Proofs.CarriedFrames
/-!
What can be read on a connection: some bytes, and how they stop. Reading a fixed number of bytes goes
by these alone, and neither by the pieces they come in nor by when they come. Main statements:
`read_follows` for a single read, `fill_full` and `fill_stops`.
-/

namespace EchoLoad

/-! ## What can be read -/

/-- How the bytes that can be read stop. -/
inductive StreamEnd where
  /-- Nothing more arrives. -/
  | silence
  | ended
  | fault (error : IoError)
  deriving DecidableEq, Repr

def StreamEnd.filled (received : Nat) : StreamEnd → Option Frame.Filled
  | .silence => none
  | .ended => some (.short received)
  | .fault e => some (.failed e)

namespace Connection

theorem cut_zero (bytes : Bytes) : cut (some 0) bytes = [] := rfl

theorem cut_eq_nil {chunk : Option Nat} (h : chunk ≠ some 0) {bytes : Bytes} :
    cut chunk bytes = [] ↔ bytes = [] := by
  cases chunk with
  | none => rfl
  | some n =>
    have hn : n ≠ 0 := fun h' => h (congrArg some h')
    simp [cut, hn]

end Connection

namespace Item

/-- The bytes that some items bring up to the first end or error, and how they stop. A read that
gives no bytes is the end of the stream. -/
def stream (chunk : Option Nat) : List Item → Bytes × StreamEnd
  | [] => ([], .silence)
  | .ended :: _ => ([], .ended)
  | .fault e :: _ => ([], .fault e)
  | .bytes b :: rest =>
    if Connection.cut chunk b = [] then ([], .ended)
    else (b ++ (stream chunk rest).1, (stream chunk rest).2)

/-- It does not show in which pieces the bytes are read. -/
theorem stream_chunk {chunk : Option Nat} (h : chunk ≠ some 0) (items : List Item) :
    stream chunk items = stream none items := by
  induction items with
  | nil => rfl
  | cons item rest ih =>
    cases item with
    | ended | fault => rfl
    | bytes b =>
      have hcut : Connection.cut chunk b = [] ↔ Connection.cut none b = [] :=
        Connection.cut_eq_nil h
      simp only [stream, hcut, ih]

theorem stream_split {chunk : Option Nat} {piece left : Bytes} (ready : Duration)
    (rest : List (Duration × Item)) (h : Connection.cut chunk (piece ++ left) ≠ []) :
    stream chunk (.bytes (piece ++ left) :: rest.map (·.2)) =
      let inbox := if left = [] then rest else (ready, .bytes left) :: rest
      (piece ++ (stream chunk (inbox.map (·.2))).1, (stream chunk (inbox.map (·.2))).2) := by
  have hchunk : chunk ≠ some 0 := fun h0 => h (h0 ▸ Connection.cut_zero _)
  rw [stream, if_neg h]
  by_cases hleft : left = []
  · simp [hleft]
  · simp [stream, Connection.cut_eq_nil hchunk, hleft]

end Item

/-! ## Reading what can be read -/

namespace Frame

variable {σ : Type} {read : σ → Nat → Read σ} {view : σ → Bytes × StreamEnd} {s : σ} {bytes : Bytes}
  {edge : StreamEnd}

/-- What a read of at most `n` bytes gives where `view` says what can be read. -/
inductive Gives (view : σ → Bytes × StreamEnd) (n : Nat) : Bytes × StreamEnd → Read σ → Prop
  | stalled : Gives view n ([], .silence) .stalled
  | ended (s : σ) : Gives view n ([], .ended) (.data [] s)
  | failed (e : IoError) (s : σ) : Gives view n ([], .fault e) (.failed e s)
  | data (b : UInt8) (bs : Bytes) (s : σ) : (b :: bs).length ≤ n →
      Gives view n (b :: bs ++ (view s).1, (view s).2) (.data (b :: bs) s)

/-- Reads take bytes off the front of what can be read, and stop only where these stop. -/
def Follows (read : σ → Nat → Read σ) (view : σ → Bytes × StreamEnd) : Prop :=
  ∀ s n, 0 < n → Gives view n (view s) (read s n)

theorem fill_full (hr : Follows read view) (hs : view s = (bytes, edge)) (need : Nat)
    (h : need ≤ bytes.length) :
    ∃ s', fill read need s = some (.full (bytes.take need), s') ∧
      view s' = (bytes.drop need, edge) := by
  induction need using Nat.strongRecOn generalizing s bytes with
  | ind need ih =>
    rw [fill]
    by_cases hzero : need = 0
    · subst hzero
      exact ⟨s, rfl, hs⟩
    rw [if_neg hzero]
    have hread := hs ▸ hr s need (Nat.pos_of_ne_zero hzero)
    generalize read s need = r at hread
    cases hread with
    | stalled | ended | failed => exact absurd (Nat.le_zero.1 h) hzero
    | data b bs rest hle =>
      have hlen : 0 < (b :: bs).length := Nat.zero_lt_succ _
      rw [List.length_append] at h
      obtain ⟨s', hfill, hview⟩ :=
        ih (need - (b :: bs).length) (by omega) (s := rest) rfl (by omega)
      refine ⟨s', ?_, ?_⟩
      · rw [List.take_append, List.take_of_length_le hle]
        dsimp only
        rw [hfill]
        rfl
      · rw [hview, List.drop_append, List.drop_of_length_le hle, List.nil_append]

theorem fill_stops (hr : Follows read view) (hs : view s = (bytes, edge)) (need : Nat)
    (h : bytes.length < need) :
    (fill read need s).map Prod.fst = edge.filled bytes.length := by
  induction need using Nat.strongRecOn generalizing s bytes with
  | ind need ih =>
    have hpos : 0 < need := Nat.zero_lt_of_lt h
    rw [fill, if_neg (Nat.ne_of_gt hpos)]
    have hread := hs ▸ hr s need hpos
    generalize read s need = r at hread
    cases hread with
    | stalled | ended | failed => rfl
    | data b bs rest hle =>
      have hlen : 0 < (b :: bs).length := Nat.zero_lt_succ _
      rw [List.length_append] at h
      have hrest := ih (need - (b :: bs).length) (by omega) (s := rest) rfl (by omega)
      dsimp only
      rw [Option.map_map]
      have hafter : (Prod.fst ∘ fun x : Filled × σ => (x.1.after (b :: bs), x.2)) =
          Filled.after (b :: bs) ∘ Prod.fst := rfl
      rw [hafter, ← Option.map_map, hrest, List.length_append]
      cases (view rest).2 <;> rfl

end Frame

namespace Connection

theorem read_follows : Frame.Follows (read none) fun s =>
    Item.stream s.2.peer.readChunk (s.2.inbox.map (·.2)) := by
  rintro ⟨now, c⟩ n hn
  cases hinbox : c.inbox with
  | nil =>
    simp only [read, hinbox]
    exact .stalled
  | cons x rest =>
    obtain ⟨ready, item⟩ := x
    simp only [read, hinbox, late, Bool.false_eq_true, if_false, List.map_cons]
    cases item with
    | ended => exact .ended _
    | fault e => exact .failed e _
    | bytes b =>
      dsimp only
      by_cases hnone : cut c.peer.readChunk b = []
      · simp only [Item.stream, hnone, List.take_nil, if_true]
        exact .ended _
      have hpiece : (cut c.peer.readChunk b).take n <+: b :=
        (List.take_prefix n _).trans (cut_front _ b)
      have hle : ((cut c.peer.readChunk b).take n).length ≤ n := List.length_take_le n _
      have hne : (cut c.peer.readChunk b).take n ≠ [] := by
        simpa [hnone] using Nat.ne_of_gt hn
      generalize (cut c.peer.readChunk b).take n = piece at hpiece hle hne
      obtain ⟨x, xs, rfl⟩ := List.exists_cons_of_ne_nil hne
      obtain ⟨left, rfl⟩ := hpiece
      rw [Item.stream_split ready rest hnone, List.drop_left]
      exact .data x xs (_, { c with
        inbox := if left = [] then rest else (ready, .bytes left) :: rest
        taken := (x :: xs) :: c.taken }) hle

end Connection

end EchoLoad
