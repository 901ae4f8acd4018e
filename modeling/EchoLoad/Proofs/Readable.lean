import EchoLoad.Proofs.Fiber
import EchoLoad.Proofs.CarriedFrames
/-!
What can be read by some instant. A reply is never there at the instant of its request, so all that
is done at one instant lives on bytes that were there before, and every echo uses some of them up.
With both timeouts set no call waits for ever. Main statements: `Client.echoRound_readable`, and
`Client.echoRound_ne_none` and `Client.connect_ne_none`.
-/

namespace EchoLoad

/-! ## One connection -/

def Item.size : Item → Nat
  | .bytes content => content.length
  | _ => 0

namespace Connection

/-- The bytes that can be read by `t`. -/
def readable (t : Duration) (c : Connection) : Nat :=
  (c.inbox.map fun x => if x.1 ≤ t then x.2.size else 0).sum

variable {c c' : Connection} {now t : Duration}

theorem readable_take {ready : Duration} {content piece : Bytes} {rest : List (Duration × Item)}
    (hinbox : c.inbox = (ready, .bytes content) :: rest) (hpiece : piece <+: content) :
    ({ c with
        inbox := if content.drop piece.length = [] then rest
          else (ready, .bytes (content.drop piece.length)) :: rest
        taken := piece :: c.taken } : Connection).readable t +
      (if ready ≤ t then piece.length else 0) = c.readable t := by
  have hlen := hpiece.length_le
  simp only [readable, hinbox, List.map_cons, List.sum_cons, Item.size]
  split
  · next hnil =>
    have hall : content.length ≤ piece.length := List.drop_eq_nil_iff.1 hnil
    split <;> omega
  · simp only [List.map_cons, List.sum_cons, List.length_drop]
    split <;> omega

/-- Up to `t`, what has been read since `start` was there to be read. -/
def ReadsAvailable (t : Duration) (start : Connection) (s : Duration × Connection) : Prop :=
  s.2.readable t ≤ start.readable t ∧
    (s.1 ≤ t → s.2.readable t + s.2.consumed.length ≤ start.readable t + start.consumed.length)

theorem read_readsAvailable (deadline : Option Duration) (t : Duration) (start : Connection) :
    Frame.Keeps (read deadline) (ReadsAvailable t start) := by
  rintro ⟨now, c⟩ n ⟨hle, hspent⟩
  dsimp only at hle hspent
  cases hinbox : c.inbox with
  | nil => simp [read, hinbox]
  | cons x rest =>
    obtain ⟨ready, item⟩ := x
    have hbefore : max now ready ≤ t → now ≤ t := Nat.le_trans (Nat.le_max_left ..)
    simp only [read, hinbox]
    by_cases hlate : late deadline ready = true
    · simp [hlate]
    rw [if_neg hlate]
    cases item with
    | ended =>
      refine ⟨fun b s' h => ?_, fun e s' h => by cases h⟩
      cases h
      exact ⟨hle, fun h => hspent (hbefore h)⟩
    | fault e =>
      refine ⟨fun b s' h => (by cases h), fun e s' h => ?_⟩
      cases h
      have hrest : ({ c with inbox := rest } : Connection).readable t = c.readable t := by
        simp [readable, hinbox, Item.size]
      exact ⟨hrest.le.trans hle, fun h => hrest ▸ hspent (hbefore h)⟩
    | bytes content =>
      refine ⟨fun b s' h => ?_, fun e s' h => by cases h⟩
      cases h
      have htake := readable_take (t := t) hinbox
        ((List.take_prefix n _).trans (cut_front c.peer.readChunk content))
      refine ⟨(Nat.le.intro htake).trans hle, fun h => ?_⟩
      rw [if_pos (Nat.le_trans (Nat.le_max_right ..) h)] at htake
      have hspent := hspent (hbefore h)
      simp only [consumed, List.reverse_cons, List.flatten_append, List.flatten_singleton,
        List.length_append] at hspent ⊢
      omega

theorem writeAll_written (allowance : Option (Nat × IoError)) (c : Connection) (bytes : Bytes) :
    ∃ written, (c.writeAll allowance bytes).1 = { c with written } := by
  fun_induction writeAll allowance c bytes with
  | case1 | case2 => exact ⟨_, rfl⟩
  | case3 allowance c bytes hb piece hp ha =>
    dsimp only
    rw [if_pos hp]
    exact ⟨_, rfl⟩
  | case4 allowance c bytes hb piece hp ha ih =>
    dsimp only
    rw [if_neg hp]
    exact ih

theorem deliver_readable (reply : Reply) (payload : Bytes) (hlat : 0 < c.peer.latency) :
    (c.deliver now reply payload).readable now = c.readable now := by
  have hlater : ¬ now + c.peer.latency ≤ now := Nat.not_le.2 (Nat.lt_add_of_pos_right hlat)
  simp [deliver, readable, Function.comp_def, hlater]

/-- **An exchange** adds nothing that can be read at once, and if it is echoed at once it uses a
header up. -/
theorem exchange_readable {limit : Option Duration} {payload : Bytes} {ending : Ending}
    (hlat : 0 < c.peer.latency) (h : c.exchange now limit payload = (c', ending)) :
    c'.readable now ≤ c.readable now ∧ ∀ t latency, ending = some (t, .ok latency) → t ≤ now →
      c'.readable now + Frame.headerLength ≤ c.readable now := by
  unfold exchange at h
  split at h
  · cases h
    exact ⟨Nat.le_refl _, nofun⟩
  next request _ =>
  obtain ⟨written, hwritten⟩ := writeAll_written (c.peer.reply c.requests).allowance c request
  dsimp only at h
  split at h
  · next c1 e hwrite =>
    cases h
    rw [hwrite] at hwritten
    obtain rfl : c' = { c with written } := hwritten
    exact ⟨Nat.le_refl _, nofun⟩
  next c1 hwrite =>
  rw [hwrite] at hwritten
  obtain rfl : c1 = { c with written } := hwritten
  let asked : Connection :=
    ({ c with written } : Connection).deliver now (c.peer.reply c.requests) payload
  have hasked : asked.readable now = c.readable now := deliver_readable _ _ hlat
  split at h
  · cases h
    exact ⟨hasked.le, nofun⟩
  split at h
  · next r t' c2 hdecode =>
    cases h
    obtain ⟨hle, hspent⟩ : ReadsAvailable now asked (t', c') :=
      Frame.decode_keeps (read_readsAvailable _ _ _) _ _
        ⟨Nat.le_refl _, fun _ => Nat.le_refl _⟩ hdecode
    refine ⟨hle.trans hasked.le, fun t latency hok ht => ?_⟩
    obtain ⟨rfl, hverdict⟩ := Prod.mk.inj (Option.some.inj hok)
    rw [verdict_eq_ok hverdict] at hdecode
    have hconsumed : c'.consumed = asked.consumed ++ Frame.wire payload :=
      Frame.decode_takes (read_tracks _) hdecode
    have hspent := hspent ht
    simp only [hconsumed, List.length_append, Frame.wire, Frame.header_length] at hspent
    omega
  · cases h
    exact ⟨hasked.le, fun t latency hok => by cases limit <;> cases hok⟩

/-- **An exchange with a time limit ends.** -/
theorem exchange_ne_none (c : Connection) (now d : Duration) (payload : Bytes) :
    (c.exchange now (some d) payload).2 ≠ none := by
  unfold exchange
  split
  · nofun
  · dsimp only
    split
    · nofun
    · split
      · nofun
      · split <;> nofun

end Connection

/-! ## All connections -/

namespace Network

/-- The bytes that can be read by `t`. -/
def readable (t : Duration) (net : Network) : Nat := (net.connections.map (·.readable t)).sum

/-- No peer replies at once, neither those connected nor those to come. -/
structure RepliesLater (net : Network) : Prop where
  peers : ∀ n, 0 < (net.peer n).latency
  connections : ∀ conn ∈ net.connections, 0 < conn.peer.latency

variable {net : Network}

theorem RepliesLater.modify (h : net.RepliesLater) (n : Nat) {f : Connection → Connection}
    (hf : ∀ conn ∈ net.connections, 0 < (f conn).peer.latency) : (net.modify n f).RepliesLater :=
  ⟨h.peers, forall_mem_modify h.connections n hf⟩

theorem RepliesLater.attempt (h : net.RepliesLater) {conn : Connection}
    (hconn : 0 < conn.peer.latency) :
    (net.attempt conn).RepliesLater := by
  refine ⟨h.peers, fun x hx => ?_⟩
  rcases List.mem_append.1 hx with hx | hx
  · exact h.connections x hx
  · rwa [List.mem_singleton.1 hx]

end Network

/-! ## Calls -/

/-- Neither an attempt nor an exchange may take for ever. -/
structure ClientOptions.Timed (o : ClientOptions) : Prop where
  connect : o.connectTimeout ≠ none
  io : o.ioTimeout ≠ none

theorem Connection.drop_readable (c : Connection) (t : Duration) :
    c.drop.readable t = c.readable t := by
  unfold drop
  split <;> rfl

namespace Client

variable {o : ClientOptions} {net : Network}

theorem exchange_readable (h : net.RepliesLater) (c : Client) (now : Duration) (payload : Bytes) :
    let call := c.exchange o now payload net
    call.network.RepliesLater ∧ call.network.readable now ≤ net.readable now ∧
      ∀ t latency, call.ending = some (t, .ok latency) → t ≤ now →
        call.network.readable now + Frame.headerLength ≤ net.readable now := by
  intro call
  obtain hcall | ⟨n, conn, conn', client, hn, hconn', hcall⟩ := exchange_eq o c now payload net
  · simp only [call, hcall]
    exact ⟨h, Nat.le_refl _, nofun⟩
  · have hlat : 0 < conn.peer.latency := h.connections conn (List.mem_of_getElem? hn)
    obtain ⟨hle, hok⟩ := Connection.exchange_readable hlat
      (Prod.mk.eta (p := conn.exchange now o.ioTimeout payload)).symm
    have hpeer := (conn.exchange_alike now o.ioTimeout payload).1
    obtain ⟨hpeer', hreadable⟩ : conn'.peer = conn.peer ∧
        conn'.readable now = (conn.exchange now o.ioTimeout payload).1.readable now := by
      rcases hconn' with rfl | rfl
      · exact ⟨hpeer, rfl⟩
      · exact ⟨(Connection.drop_peer _).trans hpeer, Connection.drop_readable _ _⟩
    have htotal : (net.modify n fun _ => conn').readable now + conn.readable now =
        net.readable now + conn'.readable now :=
      sum_map_modify hn conn'
    simp only [call, hcall]
    refine ⟨h.modify n fun _ _ => hpeer'.symm ▸ hlat, by omega, fun t latency hending ht => ?_⟩
    have hok := hok t latency hending ht
    omega

theorem exchange_ne_none (ho : o.Timed) (c : Client) (now : Duration) (payload : Bytes)
    (net : Network) : (c.exchange o now payload net).ending ≠ none := by
  obtain ⟨d, hd⟩ := Option.ne_none_iff_exists'.1 ho.io
  obtain hcall | ⟨n, conn, conn', client, -, -, hcall⟩ := exchange_eq o c now payload net
  · rw [hcall]
    nofun
  · rw [hcall, hd]
    exact conn.exchange_ne_none now d payload

/-- **A round** adds nothing that can be read at once, and if it is echoed at once it uses a header
up. -/
theorem echoRound_readable (h : net.RepliesLater) (c : Client) (now : Duration) (payload : Bytes) :
    let call := c.echoRound o now payload net
    call.network.RepliesLater ∧ call.network.readable now ≤ net.readable now ∧
      ∀ t latency, call.ending = some (t, .ok latency) → t ≤ now →
        call.network.readable now + Frame.headerLength ≤ net.readable now := by
  intro call
  unfold call echoRound
  split
  · have hexchange := exchange_readable (o := o) h { c with state := .active } now payload
    dsimp only
    split <;> exact hexchange
  · exact ⟨h, Nat.le_refl _, nofun⟩

/-- **A round ends.** -/
theorem echoRound_ne_none (ho : o.Timed) (c : Client) (now : Duration) (payload : Bytes)
    (net : Network) : (c.echoRound o now payload net).ending ≠ none := by
  have hexchange := exchange_ne_none ho { c with state := .active } now payload net
  unfold echoRound
  split
  · dsimp only
    split <;> exact hexchange
  · nofun

theorem connect_repliesLater (h : net.RepliesLater) (id : Nat) (now : Duration) :
    (({ id } : Client).connect o now net).network.RepliesLater := by
  have hlat := h.peers net.connections.length
  simp only [connect, ne_eq, not_true_eq_false, if_false]
  split
  · exact h.attempt hlat
  · exact h.attempt hlat
  · exact h.attempt hlat
  · split
    · exact h.attempt hlat
    · split
      · exact h.attempt hlat
      · exact (exchange_readable (h.attempt hlat) _ _ _).1

/-- **An attempt ends.** -/
theorem connect_ne_none (ho : o.Timed) (id : Nat) (now : Duration) (net : Network) :
    (({ id } : Client).connect o now net).ending ≠ none := by
  obtain ⟨l, hl⟩ := Option.ne_none_iff_exists'.1 ho.connect
  obtain ⟨delay, e, he⟩ : ∃ delay e,
      establish o.connectTimeout (net.peer net.connections.length) = (delay, e) := ⟨_, _, rfl⟩
  simp only [connect, ne_eq, not_true_eq_false, if_false, he]
  cases e with
  | never =>
    rw [hl] at he
    unfold establish at he
    dsimp only at he
    split at he
    · cases he
    · cases hr : (net.peer net.connections.length).refuse <;> rw [hr] at he <;> cases he
  | timedOut | refused => exact Option.some_ne_none _
  | connected =>
    dsimp only
    split
    · exact Option.some_ne_none _
    · split
      · exact Option.some_ne_none _
      · exact fun hnone => exchange_ne_none ho _ _ _ _ (Option.map_eq_none_iff.1 hnone)

end Client

end EchoLoad
