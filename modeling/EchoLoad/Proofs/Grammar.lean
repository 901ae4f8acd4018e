import EchoLoad.Proofs.Wire
/-!
What a stream can hold where a frame is expected. `Reads` says so of the stream alone: a frame within
the limit, a header that declares too much, an end of stream before, in or behind the header, or an
error before the frame is complete. Main statement: `decode_classifies`, that decoding finds the one
case that applies, wherever the stream is cut.
-/

namespace EchoLoad

inductive Mark where
  | byte (b : UInt8)
  /-- An end of stream, after which more may follow. -/
  | ended
  | fault (error : IoError)
  deriving DecidableEq, Repr

def marks (bytes : Bytes) : List Mark := bytes.map .byte

/-- A stream has ended here, and this is behind the end. Behind its last mark it has ended for good. -/
inductive Ends : List Mark → List Mark → Prop
  | last : Ends [] []
  | here (rest : List Mark) : Ends (.ended :: rest) rest

/-- A stream up to its first end or error. -/
def front : List Mark → List Mark
  | [] | .ended :: _ => [.ended]
  | .fault e :: _ => [.fault e]
  | .byte b :: rest => .byte b :: front rest

/-- The stream that some pieces bring, wherever it is cut and whenever it makes the reader wait. -/
def Piece.flow : List Piece → List Mark
  | [] => []
  | .wait :: rest => flow rest
  | .fault e :: rest => .fault e :: flow rest
  | .bytes b :: rest => if b = [] then .ended :: flow rest else marks b ++ flow rest

section Streams

variable {s s' rest left : List Mark} {a b : Bytes}

@[simp] theorem marks_append (a b : Bytes) : marks (a ++ b) = marks a ++ marks b :=
  List.map_append

@[simp] theorem length_marks (a : Bytes) : (marks a).length = a.length := List.length_map ..

theorem marks_inj : marks a = marks b ↔ a = b :=
  List.map_inj_right fun _ _ h => Mark.byte.inj h

theorem front_marks (a : Bytes) (s : List Mark) : front (marks a ++ s) = marks a ++ front s := by
  induction a with
  | nil => rfl
  | cons x a ih => exact congrArg (Mark.byte x :: ·) ih

theorem length_front_pos (s : List Mark) : 0 < (front s).length := by
  unfold front
  split <;> simp

theorem Ends.unique (h : Ends s rest) (h' : Ends s left) : left = rest := by
  cases h <;> cases h' <;> rfl

theorem Ends.front_eq (h : Ends s rest) : front s = [.ended] := by
  cases h <;> rfl

theorem exists_of_front (h : front s = marks a ++ rest) :
    ∃ t, s = marks a ++ t ∧ front t = rest := by
  induction a generalizing s with
  | nil => exact ⟨s, rfl, h⟩
  | cons x a ih =>
    match s, h with
    | .byte y :: s, h =>
      obtain ⟨hx, h⟩ := List.cons.inj h
      obtain ⟨t, rfl, ht⟩ := ih h
      exact ⟨t, congrArg (· :: _) hx, ht⟩

theorem exists_ends (h : front s = [.ended]) : ∃ rest, Ends s rest := by
  match s, h with
  | [], _ => exact ⟨[], .last⟩
  | .ended :: rest, _ => exact ⟨rest, .here rest⟩
  | .byte _ :: s, h => exact absurd (List.cons.inj h).1 Mark.noConfusion

theorem exists_fault {e : IoError} (h : front s = [.fault e]) : ∃ rest, s = .fault e :: rest := by
  match s, h with
  | .fault x :: rest, h =>
    rw [Mark.fault.inj (List.cons.inj h).1]
    exact ⟨rest, rfl⟩

theorem stop_inj {m m' : Mark} (hs : front s = [m]) (hs' : front s' = [m'])
    (h : marks a ++ s = marks b ++ s') : b = a ∧ s' = s ∧ m' = m := by
  have hfront := congrArg front h
  rw [front_marks, front_marks, hs, hs'] at hfront
  obtain ⟨hab, hm⟩ := List.append_inj' hfront rfl
  obtain rfl := marks_inj.1 hab
  exact ⟨rfl, (List.append_cancel_left h).symm, (List.cons.inj hm).1.symm⟩

end Streams

/-! ## So many bytes -/

namespace Frame

open Piece

/-- How so many bytes can be read off a stream, and what stays on the stream. -/
inductive Fills (need : Nat) : List Mark → Filled → List Mark → Prop
  | full {bytes : Bytes} (rest : List Mark) : bytes.length = need →
      Fills need (marks bytes ++ rest) (.full bytes) rest
  | short {part : Bytes} {s rest : List Mark} : part.length < need → Ends s rest →
      Fills need (marks part ++ s) (.short part.length) rest
  | failed {part : Bytes} (e : IoError) (rest : List Mark) : part.length < need →
      Fills need (marks part ++ .fault e :: rest) (.failed e) rest

variable {limit need : Nat} {f f' : Filled} {pieces pieces' : List Piece} {a b : Bytes}
  {s s' rest left : List Mark} {r : Except FrameError (Option Bytes)}

theorem Fills.after (hb : b.length ≤ need) (h : Fills (need - b.length) s f rest) :
    Fills need (marks b ++ s) (f.after b) rest := by
  cases h with
  | full _ hlen =>
    rw [← List.append_assoc, ← marks_append]
    exact .full _ (by rw [List.length_append]; omega)
  | @short part s _ hlen hends =>
    rw [← List.append_assoc, ← marks_append]
    have hshort : Fills need (marks (b ++ part) ++ s) (.short (b ++ part).length) rest :=
      .short (by rw [List.length_append]; omega) hends
    rwa [List.length_append] at hshort
  | failed e _ hlen =>
    rw [← List.append_assoc, ← marks_append]
    exact .failed e _ (by rw [List.length_append]; omega)

theorem stop_late {m : Mark} (ha : a.length = need) (hb : b.length < need) (hs : front s = [m]) :
    marks a ++ rest ≠ marks b ++ s := by
  intro h
  have hlen := congrArg (fun t => (front t).length) h
  have := length_front_pos rest
  simp only [front_marks, List.length_append, length_marks, hs, List.length_singleton] at hlen
  omega

theorem Fills.unique (h : Fills need s f rest) (h' : Fills need s' f' left) (hs : s = s') :
    f' = f ∧ left = rest := by
  cases h with
  | full _ hlen =>
    cases h' with
    | full _ hlen' =>
      obtain ⟨hb, hrest⟩ := List.append_inj hs (by simp [hlen, hlen'])
      rw [marks_inj.1 hb]
      exact ⟨rfl, hrest.symm⟩
    | short hlt hends => exact absurd hs (stop_late hlen hlt hends.front_eq)
    | failed e _ hlt => exact absurd hs (stop_late hlen hlt rfl)
  | short hlt hends =>
    cases h' with
    | full _ hlen' => exact absurd hs.symm (stop_late hlen' hlt hends.front_eq)
    | short _ hends' =>
      obtain ⟨rfl, rfl, -⟩ := stop_inj hends.front_eq hends'.front_eq hs
      exact ⟨rfl, hends.unique hends'⟩
    | failed e _ _ =>
      obtain ⟨-, -, hm⟩ := stop_inj hends.front_eq rfl hs
      cases hm
  | failed e _ hlt =>
    cases h' with
    | full _ hlen' => exact absurd hs.symm (stop_late hlen' hlt rfl)
    | short _ hends' =>
      obtain ⟨-, -, hm⟩ := stop_inj rfl hends'.front_eq hs
      cases hm
    | failed e' _ _ =>
      obtain ⟨rfl, hs, hm⟩ := stop_inj rfl rfl hs
      cases hm
      exact ⟨rfl, (List.cons.inj hs).2⟩

/-- One read takes some bytes off the stream, the end of it, or an error. -/
theorem read_flow (pieces : List Piece) {n : Nat} (hn : 0 < n) :
    (∃ b rest, Piece.read pieces n = .data b rest ∧ b ≠ [] ∧ b.length ≤ n ∧
        flow pieces = marks b ++ flow rest) ∨
      (∃ rest, Piece.read pieces n = .data [] rest ∧ Ends (flow pieces) (flow rest)) ∨
      ∃ e rest, Piece.read pieces n = .failed e rest ∧ flow pieces = .fault e :: flow rest := by
  induction pieces with
  | nil => exact .inr (.inl ⟨[], rfl, .last⟩)
  | cons p pieces ih =>
    cases p with
    | wait => exact ih
    | fault e => exact .inr (.inr ⟨e, pieces, rfl, rfl⟩)
    | bytes b =>
      by_cases hb : b = []
      · subst hb
        exact .inr (.inl ⟨pieces, by simp [Piece.read], by simpa [flow] using .here _⟩)
      · left
        by_cases hcut : n < b.length
        · have htake : b.take n ≠ [] := by simp [hb, Nat.ne_of_gt hn]
          have hdrop : b.drop n ≠ [] := by simpa using hcut
          refine ⟨b.take n, .bytes (b.drop n) :: pieces, by simp [Piece.read, hcut], htake,
            List.length_take_le _ _, ?_⟩
          simp only [flow, if_neg hb, if_neg hdrop]
          rw [← List.append_assoc, ← marks_append, List.take_append_drop]
        · exact ⟨b, pieces, by simp [Piece.read, hcut], hb, Nat.le_of_not_lt hcut,
            by simp [flow, hb]⟩

/-- **So many bytes are read off the stream** in one of these ways, however it is cut. -/
theorem fill_fills (need : Nat) (pieces : List Piece) :
    ∃ f rest, fill Piece.read need pieces = some (f, rest) ∧
      Fills need (flow pieces) f (flow rest) := by
  induction need using Nat.strongRecOn generalizing pieces with
  | ind need ih =>
    rw [fill]
    by_cases hzero : need = 0
    · rw [if_pos hzero]
      exact ⟨.full [], pieces, rfl, @Fills.full _ [] _ hzero.symm⟩
    · rw [if_neg hzero]
      have hpos : 0 < need := Nat.pos_of_ne_zero hzero
      rcases read_flow pieces hpos with
        ⟨b, rest, hread, hb, hle, hflow⟩ | ⟨rest, hread, hends⟩ | ⟨e, rest, hread, hflow⟩
      · have hlen : 0 < b.length := List.length_pos_iff.2 hb
        obtain ⟨f, rest', hfill, hfills⟩ := ih (need - b.length) (by omega) rest
        refine ⟨f.after b, rest', ?_, hflow ▸ hfills.after hle⟩
        obtain ⟨x, xs, rfl⟩ := List.exists_cons_of_ne_nil hb
        rw [hread]
        dsimp only
        rw [hfill]
        rfl
      · exact ⟨.short 0, rest, by rw [hread], @Fills.short _ [] _ _ hpos hends⟩
      · exact ⟨.failed e, rest, by rw [hread], hflow ▸ @Fills.failed _ [] e _ hpos⟩

theorem Fills.fill (h : Fills need (flow pieces) f left) :
    ∃ rest, fill Piece.read need pieces = some (f, rest) ∧ flow rest = left := by
  obtain ⟨f', rest, hfill, hfills⟩ := fill_fills need pieces
  obtain ⟨rfl, rfl⟩ := hfills.unique h rfl
  exact ⟨rest, hfill, rfl⟩

/-! ## One frame -/

/-- The bytes of a frame that is not complete and not too large, as far as its header is there. -/
def Unfinished (limit : Nat) (part : Bytes) : Prop :=
  part.length < headerLength ∨
    declared (part.take headerLength) ≤ limit ∧
      part.length < size (declared (part.take headerLength))

/-- What a stream holds where a frame is expected, and what it holds behind that. -/
inductive Reads (limit : Nat) :
    List Mark → Except FrameError (Option Bytes) → List Mark → Prop
  /-- A frame within the limit. -/
  | frame {head payload : Bytes} (rest : List Mark) : head.length = headerLength →
      declared head ≤ limit → payload.length = declared head →
      Reads limit (marks (head ++ payload) ++ rest) (.ok (some payload)) rest
  /-- A header that declares more, whatever is behind it. -/
  | oversized {head : Bytes} (rest : List Mark) : head.length = headerLength →
      limit < declared head →
      Reads limit (marks head ++ rest) (.error (.oversized (declared head) limit)) rest
  | closed {s rest : List Mark} : Ends s rest → Reads limit s (.ok none) rest
  | cutHeader {part : Bytes} {s rest : List Mark} : part ≠ [] → part.length < headerLength →
      Ends s rest →
      Reads limit (marks part ++ s) (.error (.truncated headerLength part.length)) rest
  | cutPayload {head part : Bytes} {s rest : List Mark} : head.length = headerLength →
      declared head ≤ limit → part.length < declared head → Ends s rest →
      Reads limit (marks (head ++ part) ++ s) (.error (.truncated (declared head) part.length)) rest
  /-- An error before the frame is complete. -/
  | broken {part : Bytes} (e : IoError) (rest : List Mark) : Unfinished limit part →
      Reads limit (marks part ++ .fault e :: rest) (.error (.io e)) rest

/-- **Decoding finds one of the cases** on every stream. -/
theorem decode_reads (limit : Nat) (pieces : List Piece) :
    ∃ r rest, decode Piece.read limit pieces = some (r, rest) ∧
      Reads limit (flow pieces) r (flow rest) := by
  obtain ⟨f, rest, hhead, hfills⟩ := fill_fills headerLength pieces
  generalize hs : flow pieces = s at hfills
  generalize ht : flow rest = t at hfills
  simp only [decode, hhead]
  cases hfills with
  | failed e _ hlt => exact ⟨_, _, rfl, ht ▸ .broken e _ (.inl hlt)⟩
  | @short part s _ hlt hends =>
    cases part with
    | nil => exact ⟨_, _, rfl, ht ▸ .closed hends⟩
    | cons x part => exact ⟨_, _, rfl, ht ▸ .cutHeader (List.cons_ne_nil _ _) hlt hends⟩
  | @full head _ hlen =>
    subst ht
    by_cases hlimit : limit < declared head
    · exact ⟨_, _, if_pos hlimit, .oversized _ hlen hlimit⟩
    · have hle : declared head ≤ limit := Nat.le_of_not_lt hlimit
      simp only [if_neg hlimit]
      obtain ⟨f, rest', hbody, hfills⟩ := fill_fills (declared head) rest
      generalize hs' : flow rest = s' at hfills
      generalize ht' : flow rest' = t' at hfills
      simp only [hbody]
      cases hfills with
      | @full payload _ hlen' =>
        refine ⟨_, _, rfl, ?_⟩
        rw [← List.append_assoc, ← marks_append, ht']
        exact .frame _ hlen hle hlen'
      | @short part s' _ hlt hends =>
        refine ⟨_, _, rfl, ?_⟩
        rw [← List.append_assoc, ← marks_append, ht']
        exact .cutPayload hlen hle hlt hends
      | @failed part e _ hlt =>
        refine ⟨_, _, rfl, ?_⟩
        rw [← List.append_assoc, ← marks_append, ht']
        refine .broken e _ (.inr ?_)
        rw [List.take_left' hlen, size, List.length_append, hlen]
        exact ⟨hle, Nat.add_lt_add_left hlt _⟩

theorem decode_body {head : Bytes} (hlen : head.length = headerLength)
    (hle : declared head ≤ limit) (hs : flow pieces = marks head ++ s)
    (hfills : Fills (declared head) s f left) :
    ∃ rest, flow rest = left ∧ decode Piece.read limit pieces = some (match f with
      | .full payload => .ok (some payload)
      | .short n => .error (.truncated (declared head) n)
      | .failed e => .error (.io e), rest) := by
  obtain ⟨rest, hhead, hrest⟩ := (hs ▸ Fills.full s hlen).fill
  obtain ⟨rest', hbody, hleft⟩ := (hrest ▸ hfills).fill
  refine ⟨rest', hleft, ?_⟩
  simp only [decode, hhead, if_neg (Nat.not_lt.2 hle), hbody]
  cases f <;> rfl

/-- What the stream says where a frame is expected is what decoding gives. -/
theorem Reads.decode (h : Reads limit (flow pieces) r left) :
    ∃ rest, decode Piece.read limit pieces = some (r, rest) ∧ flow rest = left := by
  generalize hs : flow pieces = s at h
  cases h with
  | @frame head payload _ hlen hle hlen' =>
    rw [marks_append, List.append_assoc] at hs
    obtain ⟨rest, hrest, hdecode⟩ := decode_body hlen hle hs (.full _ hlen')
    exact ⟨rest, hdecode, hrest⟩
  | @oversized head _ hlen hlt =>
    obtain ⟨rest, hhead, hrest⟩ := (hs ▸ Fills.full _ hlen).fill
    exact ⟨rest, by simp only [Frame.decode, hhead, if_pos hlt], hrest⟩
  | closed hends =>
    have hfills : Fills headerLength (flow pieces) (.short 0) left :=
      @Fills.short _ [] _ _ (by decide) (hs ▸ hends)
    obtain ⟨rest, hhead, hrest⟩ := hfills.fill
    exact ⟨rest, by simp only [Frame.decode, hhead], hrest⟩
  | @cutHeader part _ _ hne hlt hends =>
    obtain ⟨rest, hhead, hrest⟩ := (hs ▸ Fills.short hlt hends).fill
    obtain ⟨x, part, rfl⟩ := List.exists_cons_of_ne_nil hne
    exact ⟨rest, by simp only [Frame.decode, hhead, List.length_cons], hrest⟩
  | @cutPayload head part _ _ hlen hle hlt hends =>
    rw [marks_append, List.append_assoc] at hs
    obtain ⟨rest, hrest, hdecode⟩ := decode_body hlen hle hs (.short hlt hends)
    exact ⟨rest, hdecode, hrest⟩
  | @broken part e _ hpart =>
    by_cases hlt : part.length < headerLength
    · obtain ⟨rest, hhead, hrest⟩ := (hs ▸ Fills.failed e _ hlt).fill
      exact ⟨rest, by simp only [Frame.decode, hhead], hrest⟩
    · obtain ⟨hle, hsize⟩ := hpart.resolve_left hlt
      have hlen : (part.take headerLength).length = headerLength := by
        rw [List.length_take]
        omega
      rw [← List.take_append_drop headerLength part, marks_append, List.append_assoc] at hs
      obtain ⟨rest, hrest, hdecode⟩ := decode_body hlen hle hs
        (.failed e _ (by rw [List.length_drop]; unfold size at hsize; omega))
      exact ⟨rest, hdecode, hrest⟩

/-- What is behind the first end or error of the stream decides nothing. -/
theorem Reads.of_front (h : Reads limit s r rest) (hfront : front s' = front s) :
    ∃ left, Reads limit s' r left := by
  cases h with
  | frame _ hlen hle hlen' =>
    rw [front_marks] at hfront
    obtain ⟨t, rfl, -⟩ := exists_of_front hfront
    exact ⟨t, .frame t hlen hle hlen'⟩
  | oversized _ hlen hlt =>
    rw [front_marks] at hfront
    obtain ⟨t, rfl, -⟩ := exists_of_front hfront
    exact ⟨t, .oversized t hlen hlt⟩
  | closed hends =>
    obtain ⟨left, hends'⟩ := exists_ends (hfront.trans hends.front_eq)
    exact ⟨left, .closed hends'⟩
  | cutHeader hne hlt hends =>
    rw [front_marks] at hfront
    obtain ⟨t, rfl, ht⟩ := exists_of_front hfront
    obtain ⟨left, hends'⟩ := exists_ends (ht.trans hends.front_eq)
    exact ⟨left, .cutHeader hne hlt hends'⟩
  | cutPayload hlen hle hlt hends =>
    rw [front_marks] at hfront
    obtain ⟨t, rfl, ht⟩ := exists_of_front hfront
    obtain ⟨left, hends'⟩ := exists_ends (ht.trans hends.front_eq)
    exact ⟨left, .cutPayload hlen hle hlt hends'⟩
  | broken e _ hpart =>
    rw [front_marks] at hfront
    obtain ⟨t, rfl, ht⟩ := exists_of_front hfront
    obtain ⟨left, rfl⟩ := exists_fault ht
    exact ⟨left, .broken e left hpart⟩

theorem reads_payload {payload : Bytes} :
    Reads limit s (.ok (some payload)) left ↔
      payload.length ≤ limit ∧ ∃ frame, encode payload = .ok frame ∧ s = marks frame ++ left := by
  constructor
  · rintro (⟨_, hlen, hle, hlen'⟩ | _ | _ | _ | _ | _)
    next head =>
    refine ⟨hlen' ▸ hle, wire payload,
      encode_eq_ok.2 ⟨hlen' ▸ declared_lt hlen, rfl⟩, ?_⟩
    rw [wire, hlen', ← eq_header_declared hlen]
  · rintro ⟨hle, frame, hencode, rfl⟩
    obtain ⟨hlt, rfl⟩ := encode_eq_ok.1 hencode
    have hdeclared := declared_header hlt
    exact .frame left rfl (hdeclared.symm ▸ hle) hdeclared.symm

/-- **The frame grammar.** For every limit and all pieces, waits, ends and errors among them, decoding
comes to a result. Of the cases that `Reads` lists, this result and exactly what decoding leaves on
the stream is the only one that the stream allows; a payload is given exactly where the limit allows
it and the stream begins with its frame, and then what is left is what is behind that frame. The same
stream up to its first end or error gives the same result, and the same stream, however it is cut,
leaves the same behind it. -/
theorem decode_classifies (limit : Nat) (pieces : List Piece) :
    ∃ r rest, decode Piece.read limit pieces = some (r, rest) ∧
      (∀ r' left, Reads limit (flow pieces) r' left ↔ r' = r ∧ left = flow rest) ∧
      (∀ payload left, r = .ok (some payload) ∧ left = flow rest ↔
        payload.length ≤ limit ∧
          ∃ frame, encode payload = .ok frame ∧ flow pieces = marks frame ++ left) ∧
      (∀ pieces', front (flow pieces') = front (flow pieces) →
        ∃ rest', decode Piece.read limit pieces' = some (r, rest')) ∧
      ∀ pieces', flow pieces' = flow pieces →
        ∃ rest', decode Piece.read limit pieces' = some (r, rest') ∧ flow rest' = flow rest := by
  obtain ⟨r, rest, hdecode, hreads⟩ := decode_reads limit pieces
  have hone : ∀ r' left, Reads limit (flow pieces) r' left ↔ r' = r ∧ left = flow rest := by
    intro r' left
    constructor
    · intro h
      obtain ⟨rest', hdecode', rfl⟩ := h.decode
      cases hdecode.symm.trans hdecode'
      exact ⟨rfl, rfl⟩
    · rintro ⟨rfl, rfl⟩
      exact hreads
  refine ⟨r, rest, hdecode, hone, ?_, ?_, ?_⟩
  · intro payload left
    rw [← reads_payload, hone, eq_comm]
  · intro pieces' hfront
    obtain ⟨left, hreads'⟩ := hreads.of_front hfront
    obtain ⟨rest', hdecode', -⟩ := hreads'.decode
    exact ⟨rest', hdecode'⟩
  · intro pieces' hflow
    exact (hflow ▸ hreads : Reads limit (flow pieces') r (flow rest)).decode

end Frame

end EchoLoad
