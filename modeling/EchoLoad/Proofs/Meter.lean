import EchoLoad.Proofs.CarriedFrames
import EchoLoad.Proofs.Tally
import EchoLoad.Report.Phase
/-!
What is counted twice: by the clients, and on the wire by the peers. A client counts a round when it
is echoed; the wire has whatever was accepted, of rounds that fail as well. Main statements:
`Connection.exchange_accepts` for one exchange, and `Meter.echoRound_adds` and `Meter.connect_adds` for
the two calls that use the wire.
-/

namespace EchoLoad

def Ending.succeeds : Ending → Bool
  | some (_, .ok _) => true
  | _ => false

/-! ## One exchange -/

namespace Connection

theorem bytesIn_eq_length (c : Connection) : c.bytesIn = c.accepted.length := by
  rw [accepted, List.length_flatten, List.map_reverse, List.sum_reverse, bytesIn, List.sum_eq_foldl,
    List.foldl_map]

/-- What a write passes on is a front part of the request, and no request has arrived by it. -/
theorem writeAll_front (allowance : Option (Nat × IoError)) (c : Connection) (bytes : Bytes) :
    ∃ front, front <+: bytes ∧ (c.writeAll allowance bytes).1.accepted = c.accepted ++ front ∧
      (c.writeAll allowance bytes).1.requests = c.requests := by
  fun_induction writeAll allowance c bytes with
  | case1 | case2 => exact ⟨[], List.nil_prefix, (List.append_nil _).symm, rfl⟩
  | case3 allowance c bytes hb piece hp ha =>
    dsimp only
    rw [if_pos hp]
    exact ⟨[], List.nil_prefix, (List.append_nil _).symm, rfl⟩
  | case4 allowance c bytes hb piece hp ha ih =>
    dsimp only
    rw [if_neg hp]
    obtain ⟨front, hfront, haccepted, hrequests⟩ := ih
    have hpiece : piece <+: bytes := (cut_front _ _).trans (cut_front _ _)
    have hsplit : piece ++ bytes.drop piece.length = bytes := List.prefix_iff_eq_append.1 hpiece
    refine ⟨piece ++ front, ?_, ?_, hrequests⟩
    · rw [← hsplit]
      exact (List.prefix_append_right_inj _).2 hfront
    · rw [haccepted]
      simp [accepted]

theorem decode_accepts {deadline : Option Duration} {limit : Nat} {now t : Duration}
    {c c' : Connection} {r : Except FrameError (Option Bytes)}
    (h : Frame.decode (read deadline) limit (now, c) = some (r, (t, c'))) :
    c'.accepted = c.accepted ∧ c'.requests = c.requests := by
  have hkeeps := Frame.decode_keeps (read_keeps (P := fun x => x.accepted = c.accepted ∧
    x.requests = c.requests) deadline fun _ _ _ h => h) limit (now, c) ⟨rfl, rfl⟩ h
  exact hkeeps

/-- **What an exchange leaves at the peer**: a front part of the frame and at most one request, and
if it was echoed the frame and the request. -/
theorem exchange_accepts {c c' : Connection} {now : Duration} {limit : Option Duration}
    {payload : Bytes} {ending : Ending} (h : c.exchange now limit payload = (c', ending)) :
    ∃ front, front <+: Frame.wire payload ∧ c'.accepted = c.accepted ++ front ∧
      c.requests ≤ c'.requests ∧ c'.requests ≤ c.requests + 1 ∧
      (ending.succeeds = true →
        front = Frame.wire payload ∧ c'.requests = c.requests + 1) := by
  unfold exchange at h
  split at h
  · cases h
    exact ⟨[], List.nil_prefix, (List.append_nil _).symm, Nat.le_refl _, Nat.le_succ _, nofun⟩
  next request hencode =>
  obtain ⟨-, rfl⟩ := Frame.encode_eq_ok.1 hencode
  obtain ⟨front, hfront, haccepted, hrequests⟩ :=
    writeAll_front (c.peer.reply c.requests).allowance c (Frame.wire payload)
  dsimp only at h
  split at h
  · next c1 e hwrite =>
    cases h
    rw [hwrite] at haccepted hrequests
    exact ⟨front, hfront, haccepted, hrequests.ge, hrequests.le.trans (Nat.le_succ _), nofun⟩
  next c1 hwrite =>
  have hwhole := (writeAll_accepts hwrite).1
  rw [hwrite] at hrequests
  have hdelivered : (c1.deliver now (c.peer.reply c.requests) payload).requests = c.requests + 1 :=
    congrArg (· + 1) hrequests
  have hend : ∀ {c2 : Connection} {ending : Ending}, c2.accepted = c1.accepted →
      c2.requests = (c1.deliver now (c.peer.reply c.requests) payload).requests →
      ∃ front, front <+: Frame.wire payload ∧ c2.accepted = c.accepted ++ front ∧
        c.requests ≤ c2.requests ∧ c2.requests ≤ c.requests + 1 ∧
        (ending.succeeds = true →
          front = Frame.wire payload ∧ c2.requests = c.requests + 1) := by
    intro c2 ending ha hr
    have hone := hr.trans hdelivered
    exact ⟨_, List.prefix_rfl, ha.trans hwhole, by omega, by omega, fun _ => ⟨rfl, hone⟩⟩
  split at h
  · cases h
    exact hend rfl rfl
  · split at h
    · next hdecode =>
      cases h
      obtain ⟨ha, hr⟩ := decode_accepts hdecode
      exact hend ha hr
    · cases h
      exact hend rfl rfl

end Connection

/-! ## Meters -/

/-- Something that is counted on the wire and by the clients, and reported for each phase. -/
structure Meter where
  onWire : Connection → Nat
  counted : Client → Nat
  reported : PhaseSummary → Nat
  /-- What a round with a payload of so many bytes counts. -/
  round : Nat → Nat
  onWire_new : ∀ peer fate, onWire { peer, fate } = 0
  /-- It is kept when a connection is shut down or given up. -/
  onWire_fate : ∀ conn fate, onWire { conn with fate } = onWire conn
  /-- An exchange adds no more than its round, and that if it is echoed. -/
  exchange : ∀ {conn conn' : Connection} {now : Duration} {limit : Option Duration}
    {payload : Bytes} {ending : Ending}, conn.exchange now limit payload = (conn', ending) →
    ∃ added ≤ round payload.length, onWire conn' = onWire conn + added ∧
      (ending.succeeds = true → added = round payload.length)
  /-- A client counts a round when it is echoed. -/
  counts : ∀ (o : ClientOptions) (c : Client) (now : Duration) (payload : Bytes) (net : Network),
    counted (c.echoRound o now payload net).client =
      counted c + if (c.echoRound o now payload net).ending.succeeds then round payload.length else 0
  /-- A client that has done no round has counted nothing. -/
  counted_none : ∀ c : Client, c.rounds = 0 → c.bytesSent = 0 → counted c = 0
  reported_sum : ∀ size clients samples elapsed,
    reported { size, bytes := Client.totalBytes clients, rounds := Client.totalRounds clients
               samples, elapsed } = (clients.map counted).sum

namespace Meter

/-- Bytes that the peers have accepted, and bytes of the frames echoed. -/
def bytes : Meter where
  onWire := Connection.bytesIn
  counted := Client.bytesSent
  reported := PhaseSummary.bytes
  round := Frame.size
  onWire_new _ _ := rfl
  onWire_fate _ _ := rfl
  exchange h := by
    obtain ⟨front, hfront, haccepted, -, -, hok⟩ := Connection.exchange_accepts h
    refine ⟨front.length, ?_, ?_, fun hs => ?_⟩
    · exact hfront.length_le.trans (List.length_append ..).le
    · rw [Connection.bytesIn_eq_length, Connection.bytesIn_eq_length, haccepted,
        List.length_append]
    · rw [(hok hs).1]
      exact List.length_append
  counts o c now payload net := by
    have h := c.echoRound_counts o now payload net
    split at h <;> next he => simp [he, h.2, Ending.succeeds]
  counted_none _ _ h := h
  reported_sum _ _ _ _ := Client.totalBytes_eq _

/-- Whole requests that have arrived, and rounds completed. -/
def requests : Meter where
  onWire := Connection.requests
  counted := Client.rounds
  reported := PhaseSummary.rounds
  round _ := 1
  onWire_new _ _ := rfl
  onWire_fate _ _ := rfl
  exchange {conn conn' _ _ _ _} h := by
    obtain ⟨_, -, -, hleast, hmost, hok⟩ := Connection.exchange_accepts h
    refine ⟨conn'.requests - conn.requests, by omega, by omega, fun hs => ?_⟩
    have hone := (hok hs).2
    omega
  counts o c now payload net := by
    have h := c.echoRound_counts o now payload net
    split at h <;> next he => simp [he, h.1, Ending.succeeds]
  counted_none _ h _ := h
  reported_sum _ _ _ _ := Client.totalRounds_eq _

def handshake (m : Meter) (o : ClientOptions) : Nat :=
  o.handshake.elim 0 fun hello => m.round hello.length

def total (m : Meter) (net : Network) : Nat := (net.connections.map m.onWire).sum

variable (m : Meter) {o : ClientOptions} {net : Network}

theorem onWire_drop (conn : Connection) : m.onWire conn.drop = m.onWire conn := by
  unfold Connection.drop
  split
  · exact m.onWire_fate conn _
  · rfl

theorem total_modify {n : Nat} {conn : Connection} (conn' : Connection)
    (hn : net.connections[n]? = some conn) :
    m.total (net.modify n fun _ => conn') + m.onWire conn = m.total net + m.onWire conn' :=
  sum_map_modify hn conn'

/-- An exchange uses the connection that its client holds, if it holds one. -/
theorem exchange_adds (o : ClientOptions) (c : Client) (now : Duration) (payload : Bytes)
    (net : Network) : ∃ added ≤ m.round payload.length,
      m.total (c.exchange o now payload net).network = m.total net + added ∧
      ((c.exchange o now payload net).ending.succeeds = true → added = m.round payload.length) := by
  obtain hcall | ⟨n, conn, conn', client, hn, hconn', hcall⟩ :=
    Client.exchange_eq o c now payload net
  · rw [hcall]
    exact ⟨0, Nat.zero_le _, rfl, fun h => by cases h⟩
  · obtain ⟨added, hle, hwire, hok⟩ := m.exchange
      (Prod.mk.eta (p := conn.exchange now o.ioTimeout payload)).symm
    have hkept : m.onWire conn' = m.onWire (conn.exchange now o.ioTimeout payload).1 := by
      rcases hconn' with rfl | rfl
      · rfl
      · exact m.onWire_drop _
    have htotal := m.total_modify conn' hn
    rw [hcall]
    exact ⟨added, hle, by dsimp only; omega, hok⟩

/-- **What a round adds on the wire**: all of it if it is echoed, and at most that if not. -/
theorem echoRound_adds (o : ClientOptions) (c : Client) (now : Duration) (payload : Bytes)
    (net : Network) : ∃ added ≤ m.round payload.length,
      m.total (c.echoRound o now payload net).network = m.total net + added ∧
      ((c.echoRound o now payload net).ending.succeeds = true →
        added = m.round payload.length) := by
  unfold Client.echoRound
  split
  · obtain ⟨added, hle, htotal, hok⟩ :=
      m.exchange_adds o { c with state := .active } now payload net
    exact ⟨added, hle, by dsimp only; split <;> exact htotal, by dsimp only; split <;> exact hok⟩
  · exact ⟨0, Nat.zero_le _, rfl, fun h => by cases h⟩

/-- **What an attempt adds**: one connection, and on it the handshake if it succeeds. -/
theorem connect_adds (o : ClientOptions) (id : Nat) (now : Duration) (net : Network) :
    ∃ conn, (({ id } : Client).connect o now net).network = net.attempt conn ∧
      ((({ id } : Client).connect o now net).ending.succeeds = true →
        m.onWire conn = m.handshake o) := by
  obtain ⟨delay, e, he⟩ : ∃ delay e,
      Client.establish o.connectTimeout (net.peer net.connections.length) = (delay, e) := ⟨_, _, rfl⟩
  simp only [Client.connect, ne_eq, not_true_eq_false, if_false, he]
  cases e with
  | never => exact ⟨_, rfl, fun h => by cases h⟩
  | timedOut l => exact ⟨_, rfl, fun h => by cases h⟩
  | refused x => exact ⟨_, rfl, fun h => by cases h⟩
  | connected =>
    dsimp only
    cases hx : (net.peer net.connections.length).optionError with
    | some x => exact ⟨_, rfl, fun h => by cases h⟩
    | none =>
      cases hh : o.handshake with
      | none => exact ⟨_, rfl, fun _ => by simp [handshake, hh, onWire_new]⟩
      | some hello =>
        let c : Client := { id, state := .connected, stream := some net.connections.length }
        let conn : Connection := { peer := net.peer net.connections.length, fate := .open }
        obtain ⟨conn', t, latency, hexchange, -, -, hcall⟩ | ⟨conn', t, x, -, -, hcall⟩ |
          ⟨conn', -, -, hcall⟩ := Client.exchange_cases o (c := c) (now + delay) hello rfl
            (Client.attempt_getElem? net conn) rfl
        all_goals
          dsimp only
          rw [hcall]
          refine ⟨conn', Client.attempt_modify net conn conn', ?_⟩
        · intro _
          obtain ⟨added, -, hwire, hok⟩ := m.exchange hexchange
          rw [hwire, hok rfl, onWire_new, Nat.zero_add, handshake, hh]
          rfl
        · exact fun h => by cases h
        · exact fun h => by cases h

end Meter

end EchoLoad
