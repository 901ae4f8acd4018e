import EchoLoad.Proofs.Calls
import EchoLoad.Proofs.Grammar
import EchoLoad.Proofs.Readable
import EchoLoad.Proofs.Stream
/-!
The verdict of a round. A client that waits as long as it takes judges its peer by the bytes that
can be read once the request is out, and by how they stop. `Verdict` has a case for each way this can
go. Main statement: `echo_verdict`.
-/

namespace EchoLoad

/-! ## Judging what can be read -/

/-- How a call ends, without when it ends and what it measured. -/
def Ending.outcome (ending : Ending) : Option (Except ClientError Unit) :=
  ending.map fun x => x.2.map fun _ => ()

/-- What is said of a peer that stops too early. -/
def StreamEnd.outcome (expected received : Nat) : StreamEnd → Option (Except ClientError Unit)
  | .silence => none
  | .ended => some (.error (.protocol (.truncated expected received)))
  | .fault e => some (.error (.protocol (.io e)))

/-- What a reply to `payload` says where some bytes can be read that stop in some way. -/
inductive Verdict (payload : Bytes) : Bytes → StreamEnd → Except ClientError Unit → Prop
  /-- The request comes back, whatever follows. -/
  | echoed (rest : Bytes) (edge : StreamEnd) :
      Verdict payload (Frame.wire payload ++ rest) edge (.ok ())
  /-- More is declared, whatever follows. -/
  | longer {head : Bytes} (rest : Bytes) (edge : StreamEnd) : head.length = Frame.headerLength →
      payload.length < Frame.declared head →
      Verdict payload (head ++ rest) edge
        (.error (.echoMismatch payload.length (Frame.declared head) none))
  | shorter {head body : Bytes} (rest : Bytes) (edge : StreamEnd) : head.length = Frame.headerLength →
      Frame.declared head < payload.length → body.length = Frame.declared head →
      Verdict payload (head ++ (body ++ rest)) edge
        (.error (.echoMismatch payload.length (Frame.declared head) none))
  /-- The length is right, and a byte is not. -/
  | differs {head body : Bytes} {offset : Nat} (rest : Bytes) (edge : StreamEnd) :
      head.length = Frame.headerLength → Frame.declared head = payload.length →
      body.length = payload.length → payload[offset]? ≠ body[offset]? →
      (∀ i < offset, payload[i]? = body[i]?) →
      Verdict payload (head ++ (body ++ rest)) edge
        (.error (.echoMismatch payload.length payload.length (some offset)))
  | cutHeader {part : Bytes} : part.length < Frame.headerLength →
      Verdict payload part .ended
        (.error (.protocol (.truncated Frame.headerLength part.length)))
  | cutPayload {head part : Bytes} : head.length = Frame.headerLength →
      Frame.declared head ≤ payload.length → part.length < Frame.declared head →
      Verdict payload (head ++ part) .ended
        (.error (.protocol (.truncated (Frame.declared head) part.length)))
  /-- An error comes before the frame is complete. -/
  | broken {part : Bytes} (e : IoError) : Frame.Unfinished payload.length part →
      Verdict payload part (.fault e) (.error (.protocol (.io e)))

namespace Connection

variable {payload echo : Bytes} {latency : Duration}

theorem firstDifference_eq_some {a b : Bytes} {o : Nat} (hlen : b.length = a.length) :
    firstDifference a b = some o ↔ a[o]? ≠ b[o]? ∧ ∀ i < o, a[i]? = b[i]? := by
  induction a generalizing b o with
  | nil =>
    cases List.length_eq_zero_iff.1 hlen
    simp [firstDifference]
  | cons x a ih =>
    obtain ⟨y, b, rfl⟩ := List.exists_cons_of_length_eq_add_one hlen
    rw [List.length_cons, List.length_cons, Nat.add_right_cancel_iff] at hlen
    rw [firstDifference]
    by_cases hxy : x = y
    · subst hxy
      cases o with
      | zero => simp
      | succ o =>
        rw [Nat.forall_lt_succ_left]
        simp [ih hlen]
    · cases o with
      | zero => simp [hxy]
      | succ o =>
        rw [Nat.forall_lt_succ_left]
        simp [hxy]

theorem verdict_self : verdict payload latency (.ok (some payload)) = .ok latency := by
  have hnone : firstDifference payload payload = none := by
    rw [Option.eq_none_iff_forall_ne_some]
    intro o ho
    exact ((firstDifference_eq_some rfl).1 ho).1 rfl
  simp [verdict, hnone]

theorem verdict_shorter (h : echo.length < payload.length) :
    verdict payload latency (.ok (some echo)) =
      .error (.echoMismatch payload.length echo.length none) :=
  if_pos (Nat.ne_of_lt h)

theorem verdict_differs {o : Nat} (hlen : echo.length = payload.length)
    (ho : payload[o]? ≠ echo[o]?) (hleast : ∀ i < o, payload[i]? = echo[i]?) :
    verdict payload latency (.ok (some echo)) =
      .error (.echoMismatch payload.length payload.length (some o)) := by
  have hsome : firstDifference payload echo = some o :=
    (firstDifference_eq_some hlen).2 ⟨ho, hleast⟩
  simp [verdict, hlen, hsome]

end Connection

namespace Frame

variable {σ : Type} {read : σ → Nat → Read σ} {view : σ → Bytes × StreamEnd} {s : σ}
  {payload bytes : Bytes} {edge : StreamEnd} (now : σ → Duration)

theorem exists_split {n : Nat} (h : n ≤ bytes.length) :
    ∃ front rest, front.length = n ∧ bytes = front ++ rest :=
  ⟨_, _, List.length_take_of_le h, (List.take_append_drop n bytes).symm⟩

theorem unfinished_append {limit : Nat} {head part : Bytes} (hhead : head.length = headerLength) :
    Unfinished limit (head ++ part) ↔ declared head ≤ limit ∧ part.length < declared head := by
  have hwhole : ¬(head ++ part).length < headerLength := by
    rw [List.length_append, hhead]
    exact Nat.not_lt.2 (Nat.le_add_right _ _)
  rw [Unfinished, or_iff_right hwhole, List.take_left' hhead, size, List.length_append, hhead,
    Nat.add_lt_add_iff_left]

/-- What a client says that decodes the reply to `payload`. -/
def judge (read : σ → Nat → Read σ) (now : σ → Duration) (payload : Bytes) (s : σ) :
    Option (Except ClientError Unit) :=
  (decode read payload.length s).map fun x =>
    (Connection.verdict payload (now x.2) x.1).map fun _ => ()

theorem judge_header (hr : Follows read view) (hs : view s = (bytes, edge))
    (h : bytes.length < headerLength) :
    judge read now payload s = edge.outcome headerLength bytes.length := by
  have hfill := fill_stops hr hs headerLength h
  unfold judge decode
  cases edge with
  | silence =>
    have hnone : fill read headerLength s = none := Option.map_eq_none_iff.1 hfill
    rw [hnone]
    rfl
  | ended =>
    obtain ⟨⟨_, s'⟩, hsome, rfl⟩ := Option.map_eq_some_iff.1 hfill
    rw [hsome]
    cases bytes <;> rfl
  | fault e =>
    obtain ⟨⟨_, s'⟩, hsome, rfl⟩ := Option.map_eq_some_iff.1 hfill
    rw [hsome]
    rfl

theorem judge_longer {head rest : Bytes} (hr : Follows read view)
    (hs : view s = (head ++ rest, edge)) (hhead : head.length = headerLength)
    (hlong : payload.length < declared head) :
    judge read now payload s =
      some (.error (.echoMismatch payload.length (declared head) none)) := by
  obtain ⟨s', hfill, -⟩ := fill_full hr hs headerLength
    (by rw [List.length_append, hhead]; exact Nat.le_add_right _ _)
  rw [List.take_left' hhead] at hfill
  simp only [judge, decode, hfill, if_pos hlong, Option.map_some]
  rfl

theorem judge_body {head part : Bytes} (hr : Follows read view)
    (hs : view s = (head ++ part, edge)) (hhead : head.length = headerLength)
    (hle : declared head ≤ payload.length) (hcut : part.length < declared head) :
    judge read now payload s = edge.outcome (declared head) part.length := by
  obtain ⟨s', hfill, hs'⟩ := fill_full hr hs headerLength
    (by rw [List.length_append, hhead]; exact Nat.le_add_right _ _)
  rw [List.take_left' hhead] at hfill
  rw [List.drop_left' hhead] at hs'
  have hbody := fill_stops hr hs' (declared head) hcut
  simp only [judge, decode, hfill, if_neg (Nat.not_lt.2 hle)]
  cases edge with
  | silence =>
    have hnone := Option.map_eq_none_iff.1 hbody
    rw [hnone]
    rfl
  | ended =>
    obtain ⟨⟨_, s''⟩, hsome, rfl⟩ := Option.map_eq_some_iff.1 hbody
    rw [hsome]
    rfl
  | fault e =>
    obtain ⟨⟨_, s''⟩, hsome, rfl⟩ := Option.map_eq_some_iff.1 hbody
    rw [hsome]
    rfl

theorem judge_frame {head body rest : Bytes} (hr : Follows read view)
    (hs : view s = (head ++ (body ++ rest), edge)) (hhead : head.length = headerLength)
    (hbody : body.length = declared head) (hle : declared head ≤ payload.length) :
    ∃ latency, judge read now payload s =
      some ((Connection.verdict payload latency (.ok (some body))).map fun _ => ()) := by
  obtain ⟨s', hfill, hs'⟩ := fill_full hr hs headerLength
    (by rw [List.length_append, hhead]; exact Nat.le_add_right _ _)
  rw [List.drop_left' hhead] at hs'
  obtain ⟨s'', hfill', -⟩ := fill_full hr hs' (declared head)
    (by rw [List.length_append, hbody]; exact Nat.le_add_right _ _)
  refine ⟨now s'', ?_⟩
  rw [List.take_left' hbody] at hfill'
  rw [List.take_left' hhead] at hfill
  simp only [judge, decode, hfill, if_neg (Nat.not_lt.2 hle), hfill', Option.map_some]

theorem judge_unfinished (hr : Follows read view) (hs : view s = (bytes, edge))
    (h : Unfinished payload.length bytes) :
    ∃ expected received, judge read now payload s = edge.outcome expected received := by
  by_cases hshort : bytes.length < headerLength
  · exact ⟨_, _, judge_header now hr hs hshort⟩
  · obtain ⟨head, part, hhead, rfl⟩ := exists_split (Nat.le_of_not_lt hshort)
    obtain ⟨hle, hcut⟩ := (unfinished_append hhead).1 h
    exact ⟨_, _, judge_body now hr hs hhead hle hcut⟩

/-- **Each case is judged as it says.** -/
theorem judge_of_verdict {r : Except ClientError Unit} (hr : Follows read view)
    (hs : view s = (bytes, edge)) (hsize : payload.length < lengthBound)
    (h : Verdict payload bytes edge r) : judge read now payload s = some r := by
  cases h with
  | echoed rest =>
    rw [wire, List.append_assoc] at hs
    obtain ⟨latency, hjudge⟩ := judge_frame now hr hs rfl
      (declared_header hsize).symm (Nat.le_of_eq (declared_header hsize))
    rw [hjudge, Connection.verdict_self]
    rfl
  | longer rest _ hhead hlong => exact judge_longer now hr hs hhead hlong
  | shorter rest _ hhead hshort hbody =>
    obtain ⟨latency, hjudge⟩ := judge_frame now hr hs hhead hbody (Nat.le_of_lt hshort)
    rw [hjudge, Connection.verdict_shorter (hbody ▸ hshort), hbody]
    rfl
  | differs rest _ hhead hdeclared hbody ho hleast =>
    obtain ⟨latency, hjudge⟩ := judge_frame now hr hs hhead
      (hbody.trans hdeclared.symm) (Nat.le_of_eq hdeclared)
    rw [hjudge, Connection.verdict_differs hbody ho hleast]
    rfl
  | cutHeader hcut => exact judge_header now hr hs hcut
  | cutPayload hhead hle hcut => exact judge_body now hr hs hhead hle hcut
  | broken e hpart =>
    obtain ⟨expected, received, hjudge⟩ := judge_unfinished now hr hs hpart
    exact hjudge

end Frame

/-- There is a verdict, unless the client waits for ever. -/
theorem exists_verdict (payload bytes : Bytes) (edge : StreamEnd) :
    (∃ r, Verdict payload bytes edge r) ∨
      edge = .silence ∧ Frame.Unfinished payload.length bytes := by
  by_cases hshort : bytes.length < Frame.headerLength
  · cases edge with
    | silence => exact .inr ⟨rfl, .inl hshort⟩
    | ended => exact .inl ⟨_, .cutHeader hshort⟩
    | fault e => exact .inl ⟨_, .broken e (.inl hshort)⟩
  obtain ⟨head, rest, hhead, rfl⟩ := Frame.exists_split (Nat.le_of_not_lt hshort)
  by_cases hlong : payload.length < Frame.declared head
  · exact .inl ⟨_, .longer rest edge hhead hlong⟩
  have hle : Frame.declared head ≤ payload.length := Nat.le_of_not_lt hlong
  by_cases hcut : rest.length < Frame.declared head
  · have hpart := (Frame.unfinished_append hhead).2 ⟨hle, hcut⟩
    cases edge with
    | silence => exact .inr ⟨rfl, hpart⟩
    | ended => exact .inl ⟨_, .cutPayload hhead hle hcut⟩
    | fault e => exact .inl ⟨_, .broken e hpart⟩
  left
  obtain ⟨body, rest, hbody, rfl⟩ := Frame.exists_split (Nat.le_of_not_lt hcut)
  rcases Nat.lt_or_eq_of_le hle with hless | heq
  · exact ⟨_, .shorter rest edge hhead hless hbody⟩
  · have hlen : body.length = payload.length := hbody.trans heq
    cases hdiff : Connection.firstDifference payload body with
    | none =>
      rw [Connection.firstDifference_eq_none hlen hdiff, ← List.append_assoc,
        Frame.eq_header_declared hhead, heq]
      exact ⟨_, .echoed rest edge⟩
    | some o =>
      obtain ⟨ho, hleast⟩ := (Connection.firstDifference_eq_some hlen).1 hdiff
      exact ⟨_, .differs rest edge hhead heq hlen ho hleast⟩

/-- Only the request itself is accepted. -/
theorem verdict_ok {payload bytes : Bytes} {edge : StreamEnd} :
    Verdict payload bytes edge (.ok ()) ↔ Frame.wire payload <+: bytes := by
  constructor
  · rintro ⟨rest⟩
    exact List.prefix_append _ _
  · rintro ⟨rest, rfl⟩
    exact .echoed rest edge

theorem verdict_frame {payload reply bytes : Bytes} (edge : StreamEnd) (hne : reply ≠ payload)
    (hlt : reply.length < Frame.lengthBound) (hfront : Frame.wire reply <+: bytes) :
    ∃ offset, Verdict payload bytes edge
      (.error (.echoMismatch payload.length reply.length offset)) := by
  obtain ⟨rest, rfl⟩ := hfront
  have hdeclared : Frame.declared (Frame.header reply.length) = reply.length :=
    Frame.declared_header hlt
  rw [Frame.wire, List.append_assoc]
  rcases Nat.lt_trichotomy reply.length payload.length with hless | heq | hmore
  · have hshorter := Verdict.shorter rest edge (Frame.header_length _)
      (hdeclared ▸ hless) hdeclared.symm
    rw [hdeclared] at hshorter
    exact ⟨none, hshorter⟩
  · cases hdiff : Connection.firstDifference payload reply with
    | none => exact absurd (Connection.firstDifference_eq_none heq hdiff) hne
    | some o =>
      obtain ⟨ho, hleast⟩ := (Connection.firstDifference_eq_some heq).1 hdiff
      have hdiffers := Verdict.differs rest edge (Frame.header_length _) (hdeclared.trans heq)
        heq ho hleast
      exact ⟨some o, heq ▸ hdiffers⟩
  · have hlonger := Verdict.longer (reply ++ rest) edge (Frame.header_length _)
      (hdeclared.symm ▸ hmore)
    rw [hdeclared] at hlonger
    exact ⟨none, hlonger⟩

/-! ## One round -/

namespace Connection

variable {c : Connection} {now : Duration} {payload : Bytes}

/-- Why a request cannot be written and flushed, if it cannot. -/
def sendFault (c : Connection) (payload : Bytes) : Option IoError :=
  let reply := c.peer.reply c.requests
  (c.writeAll reply.allowance (Frame.wire payload)).2.or reply.flushFault

/-- What can be read once a request is out: what was left before, and the reply. -/
def stream (c : Connection) (payload : Bytes) : Bytes × StreamEnd :=
  Item.stream c.peer.readChunk
    (c.inbox.map (·.2) ++ (c.peer.reply c.requests).items payload)

theorem exchange_outcome (c : Connection) (now : Duration)
    (hsize : payload.length < Frame.lengthBound) :
    (∀ e, c.sendFault payload = some e →
      (c.exchange now none payload).2.outcome = some (.error (.write e))) ∧
    (c.sendFault payload = none →
      ∃ s : Duration × Connection,
        Item.stream s.2.peer.readChunk (s.2.inbox.map (·.2)) = c.stream payload ∧
        (c.exchange now none payload).2.outcome =
          Frame.judge (read none) (fun s => s.1 - now) payload s) := by
  have hencode : Frame.encode payload = .ok (Frame.wire payload) :=
    Frame.encode_eq_ok.2 ⟨hsize, rfl⟩
  obtain ⟨written, hwritten⟩ :=
    c.writeAll_written (c.peer.reply c.requests).allowance (Frame.wire payload)
  obtain ⟨fault, hfault⟩ : ∃ fault, (c.writeAll (c.peer.reply c.requests).allowance
      (Frame.wire payload)).2 = fault := ⟨_, rfl⟩
  have hwrite : c.writeAll (c.peer.reply c.requests).allowance (Frame.wire payload) =
      ({ c with written }, fault) := Prod.ext hwritten hfault
  simp only [sendFault, exchange, hencode, hwrite]
  cases fault with
  | some e => exact ⟨fun e' h => by cases h; rfl, fun h => by cases h⟩
  | none =>
    rw [Option.none_or]
    dsimp only
    cases (c.peer.reply c.requests).flushFault with
    | some e => exact ⟨fun e' h => by cases h; rfl, fun h => by cases h⟩
    | none =>
      refine ⟨fun e h => (by cases h), fun _ => ?_⟩
      refine ⟨(now, deliver { c with written } now (c.peer.reply c.requests) payload), ?_, ?_⟩
      · simp [stream, deliver]
      · simp only [Frame.judge, Option.map_none]
        cases Frame.decode (read none) payload.length
          (now, deliver { c with written } now (c.peer.reply c.requests) payload) <;> rfl

end Connection

namespace Client

variable {o : ClientOptions} {c : Client} {net : Network} {n : Nat} {conn : Connection}
  {payload : Bytes}

theorem echoRound_ending (o : ClientOptions) (now : Duration) (payload : Bytes)
    (h : c.HoldsAt net n conn) :
    (c.echoRound o now payload net).ending = (conn.exchange now o.ioTimeout payload).2 := by
  obtain ⟨conn', ending, he⟩ : ∃ conn' ending,
      conn.exchange now o.ioTimeout payload = (conn', ending) := ⟨_, _, rfl⟩
  simp only [echoRound, h.isOpen, if_true, exchange, h.stream, Option.bind_some, h.connection,
    Option.map_some, he]
  rcases ending with _ | ⟨t, e | latency⟩ <;> rfl

/-- **The verdict of a round.** If the request cannot be written and flushed, the round says so.
Otherwise it goes by the bytes that can be read and by how they stop, and the chunk in which they are
read does not matter as long as a read gives anything: of the cases that `Verdict` lists the one that
applies, or none if the client waits for ever. The request is accepted exactly where its frame is in
front, and every other frame there is a mismatch. -/
theorem echo_verdict (now : Duration) (h : c.HoldsAt net n conn) (ho : o.ioTimeout = none)
    (hsize : payload.length < Frame.lengthBound) :
    let outcome := (c.echoRound o now payload net).ending.outcome
    (∀ e, conn.sendFault payload = some e → outcome = some (.error (.write e))) ∧
    (conn.peer.readChunk ≠ some 0 → conn.stream payload = Item.stream none
      (conn.inbox.map (·.2) ++ (conn.peer.reply conn.requests).items payload)) ∧
    (conn.sendFault payload = none → ∀ bytes edge, conn.stream payload = (bytes, edge) →
      (∀ r, outcome = some r ↔ Verdict payload bytes edge r) ∧
      (outcome = none ↔ edge = .silence ∧ Frame.Unfinished payload.length bytes) ∧
      (outcome = some (.ok ()) ↔ Frame.wire payload <+: bytes) ∧
      ∀ reply, reply ≠ payload → reply.length < Frame.lengthBound → Frame.wire reply <+: bytes →
        ∃ offset, outcome = some (.error (.echoMismatch payload.length reply.length offset))) := by
  intro outcome
  have houtcome : outcome = (conn.exchange now none payload).2.outcome := by
    simp only [outcome]
    rw [echoRound_ending o now payload h, ho]
  obtain ⟨hfails, hreads⟩ := conn.exchange_outcome now hsize
  rw [houtcome]
  refine ⟨hfails, fun hchunk => Item.stream_chunk hchunk _, fun hsend bytes edge hstream => ?_⟩
  obtain ⟨s, hs, hjudge⟩ := hreads hsend
  rw [hstream] at hs
  rw [hjudge]
  have hverdict : ∀ r, Verdict payload bytes edge r →
      Frame.judge (Connection.read none) (fun s => s.1 - now) payload s = some r :=
    fun r => Frame.judge_of_verdict _ Connection.read_follows hs hsize
  have hsilent : edge = .silence → Frame.Unfinished payload.length bytes →
      Frame.judge (Connection.read none) (fun s => s.1 - now) payload s = none := by
    rintro rfl hpart
    obtain ⟨_, _, hnone⟩ := Frame.judge_unfinished _ Connection.read_follows hs hpart
    exact hnone
  have hiff : ∀ r, Frame.judge (Connection.read none) (fun s => s.1 - now) payload s = some r ↔
      Verdict payload bytes edge r := by
    intro r
    refine ⟨fun hr => ?_, hverdict r⟩
    rcases exists_verdict payload bytes edge with ⟨r', hr'⟩ | ⟨hedge, hpart⟩
    · cases hr.symm.trans (hverdict r' hr')
      exact hr'
    · cases hr.symm.trans (hsilent hedge hpart)
  refine ⟨hiff, ⟨fun hnone => ?_, fun ⟨hedge, hpart⟩ => hsilent hedge hpart⟩, ?_, ?_⟩
  · rcases exists_verdict payload bytes edge with ⟨r, hr⟩ | hwaits
    · cases hnone.symm.trans (hverdict r hr)
    · exact hwaits
  · rw [hiff, verdict_ok]
  · intro reply hne hlt hfront
    obtain ⟨offset, hr⟩ := verdict_frame edge hne hlt hfront
    exact ⟨offset, hverdict _ hr⟩

/-- Two bytes were left to be read, and the reply has the rest of a header and one byte of a payload,
read one by one. -/
theorem echo_verdict_cut :
    let conn : Connection :=
      { peer := { replies := [.raw [0, 2, 7] true], readChunk := some 1, writeChunk := some 3 }
        fate := .open
        inbox := [(0, .bytes [0, 0])] }
    let c : Client := { id := 0, state := .connected, stream := some 0 }
    (c.echoRound {} 0 [7, 8] { connections := [conn] }).ending.outcome =
      some (.error (.protocol (.truncated 2 1))) := by
  intro conn c
  have hheld : c.HoldsAt { connections := [conn] } 0 conn := ⟨rfl, rfl, rfl, rfl⟩
  have hsize : ([7, 8] : Bytes).length < Frame.lengthBound := by decide
  obtain ⟨-, -, hreads⟩ := echo_verdict (o := {}) 0 hheld rfl hsize
  have hsend : conn.sendFault [7, 8] = none := by decide +kernel
  obtain ⟨hiff, -⟩ := hreads hsend [0, 0, 0, 2, 7] .ended rfl
  exact (hiff _).2 (@Verdict.cutPayload _ [0, 0, 0, 2] [7] rfl (by decide) (by decide))

end Client

end EchoLoad
