import EchoLoad.Proofs.Exchange
/-!
Peers keep no calendar: whatever a client does with one, done `δ` later it goes the same way and
ends `δ` later. Main statements: `exchange_later` for one exchange and `connect_later` for a first
attempt to connect.
-/

namespace EchoLoad

/-! ## Reading -/

def Read.map {σ τ : Type} (g : σ → τ) : Read σ → Read τ
  | .data bytes rest => .data bytes (g rest)
  | .failed error rest => .failed error (g rest)
  | .stalled => .stalled

namespace Frame

variable {σ τ : Type} {read : σ → Nat → Read σ} {read' : τ → Nat → Read τ} {g : σ → τ}

theorem fill_map (hr : ∀ s n, read' (g s) n = (read s n).map g) (need : Nat) (s : σ) :
    fill read' need (g s) = (fill read need s).map fun (f, s) => (f, g s) := by
  fun_induction fill read need s with
  | case1 s => simp [fill]
  | case2 need s hn he => rw [fill, if_neg hn, hr, he]; rfl
  | case3 need s hn e rest he => rw [fill, if_neg hn, hr, he]; rfl
  | case4 need s hn rest he => rw [fill, if_neg hn, hr, he]; rfl
  | case5 need s hn b bs rest he ih =>
    rw [fill, if_neg hn, hr, he]
    simp only [Read.map, ih, Option.map_map]
    rfl

theorem decode_map (hr : ∀ s n, read' (g s) n = (read s n).map g) (limit : Nat) (s : σ) :
    decode read' limit (g s) = (decode read limit s).map fun (r, s) => (r, g s) := by
  simp only [decode, fill_map hr]
  rcases fill read headerLength s with _ | ⟨head | n | e, s1⟩
  · rfl
  · simp only [Option.map_some]
    split
    · rfl
    · rw [fill_map hr]
      rcases fill read (declared head) s1 with _ | ⟨_ | _ | _, s2⟩ <;> rfl
  · cases n <;> rfl
  · rfl

end Frame

/-! ## One connection -/

def Ending.later (δ : Duration) (ending : Ending) : Ending := ending.map fun (t, r) => (t + δ, r)

namespace Connection

variable {δ : Duration}

def later (δ : Duration) (c : Connection) : Connection :=
  { c with inbox := c.inbox.map fun (t, item) => (t + δ, item) }

theorem later_of_inbox {c : Connection} (h : c.inbox = []) (δ : Duration) : c.later δ = c := by
  cases c
  cases h
  rfl

theorem read_later (limit : Option Duration) (start : Duration) (s : Duration × Connection)
    (n : Nat) :
    read (limit.map (start + δ + ·)) (s.1 + δ, s.2.later δ) n =
      (read (limit.map (start + ·)) s n).map fun s => (s.1 + δ, s.2.later δ) := by
  obtain ⟨now, c⟩ := s
  have hlate : ∀ t, late (limit.map (start + δ + ·)) (t + δ) = late (limit.map (start + ·)) t := by
    intro t
    cases limit with
    | none => rfl
    | some l =>
      simp only [late, Option.map_some, decide_eq_decide]
      grind
  have hmax : ∀ t, max (now + δ) (t + δ) = max now t + δ := fun t => Nat.add_max_add_right ..
  cases hi : c.inbox with
  | nil => simp [read, later, hi, Read.map]
  | cons first rest =>
    obtain ⟨t, item⟩ := first
    simp only [read, later, hi, List.map_cons, hlate, hmax]
    split
    · rfl
    · cases item with
      | ended => simp [Read.map, hi]
      | fault e => rfl
      | bytes b =>
        simp only [Read.map, Read.data.injEq, Prod.mk.injEq, true_and]
        split <;> rfl

theorem writeAll_later (allowance : Option (Nat × IoError)) (c : Connection) (bytes : Bytes) :
    (c.later δ).writeAll allowance bytes =
      ((c.writeAll allowance bytes).1.later δ, (c.writeAll allowance bytes).2) := by
  have hpeer : ∀ c : Connection, (c.later δ).peer = c.peer := fun _ => rfl
  fun_induction writeAll allowance c bytes with
  | case1 =>
    unfold writeAll
    rw [if_pos rfl]
  | case2 c bytes hb e => rw [writeAll, if_neg hb]
  | case3 allowance c bytes hb piece hp ha =>
    rw [writeAll, if_neg hb]
    · dsimp only
      rw [hpeer, if_pos hp, if_pos hp]
    · exact ha
  | case4 allowance c bytes hb piece hp ha ih =>
    rw [writeAll, if_neg hb]
    · dsimp only
      rw [hpeer, if_neg hp, if_neg hp]
      exact ih
    · exact ha

theorem deliver_later (c : Connection) (now : Duration) (reply : Reply) (payload : Bytes) :
    (c.later δ).deliver (now + δ) reply payload = (c.deliver now reply payload).later δ := by
  have hready : now + δ + c.peer.latency = now + c.peer.latency + δ := by grind
  simp only [deliver, later, List.map_append, List.map_map, hready]
  rfl

/-- **An exchange at a later time.** -/
theorem exchange_later (c : Connection) (now : Duration) (limit : Option Duration)
    (payload : Bytes) :
    (c.later δ).exchange (now + δ) limit payload =
      ((c.exchange now limit payload).1.later δ, (c.exchange now limit payload).2.later δ) := by
  have hpeer : ∀ c : Connection, (c.later δ).peer = c.peer := fun _ => rfl
  have hrequests : (c.later δ).requests = c.requests := rfl
  unfold exchange
  split
  · rfl
  · next request _ =>
    simp only [hpeer, hrequests, writeAll_later]
    rcases c.writeAll (c.peer.reply c.requests).allowance request with ⟨c1, _ | e⟩
    · simp only [deliver_later]
      split
      · rfl
      · have hr := Frame.decode_map (read_later (δ := δ) limit now) payload.length
          (now, c1.deliver now (c.peer.reply c.requests) payload)
        dsimp only at hr
        rw [hr]
        rcases Frame.decode (read (limit.map (now + ·))) payload.length
          (now, c1.deliver now (c.peer.reply c.requests) payload) with _ | ⟨r, t, c2⟩
        · cases limit with
          | none => rfl
          | some l =>
            have ht : now + δ + l = now + l + δ := by grind
            simp only [Option.map_none, Option.map_some, Ending.later, ht]
        · have ht : t + δ - (now + δ) = t - now := by grind
          simp only [Option.map_some, Ending.later, ht]
    · rfl

end Connection

/-! ## A first attempt to connect -/

/-- The connection as its client leaves it: given up if the exchange failed. -/
def Connection.kept (c : Connection) : Ending → Connection
  | some (_, .error _) => c.drop
  | _ => c

theorem Connection.kept_later (δ : Duration) (c : Connection) (ending : Ending) :
    (c.later δ).kept (ending.later δ) = (c.kept ending).later δ := by
  have hdrop : (c.later δ).drop = c.drop.later δ := by
    by_cases h : c.fate = .open
    · rw [drop, drop, if_pos h, if_pos (show (c.later δ).fate = .open from h)]
      rfl
    · rw [drop, drop, if_neg h, if_neg (show ¬ (c.later δ).fate = .open from h)]
  rcases ending with _ | ⟨t, _ | _⟩
  · rfl
  · exact hdrop
  · rfl

/-- The client behind an exchange: it has failed if the exchange did. -/
def Client.kept (c : Client) : Ending → Client
  | some (_, .error _) => c.failed
  | _ => c

theorem Client.exchange_last (o : ClientOptions) (c : Client) (now : Duration) (payload : Bytes)
    (net : Network) (conn : Connection) (hc : c.stream = some net.connections.length) :
    (c.exchange o now payload (net.attempt conn)).network =
        net.attempt ((conn.exchange now o.ioTimeout payload).1.kept
          (conn.exchange now o.ioTimeout payload).2) ∧
      (c.exchange o now payload (net.attempt conn)).ending =
        (conn.exchange now o.ioTimeout payload).2 ∧
      (c.exchange o now payload (net.attempt conn)).client =
        c.kept (conn.exchange now o.ioTimeout payload).2 := by
  simp only [exchange, hc, Option.bind_some, attempt_getElem?, Option.map_some]
  rcases conn.exchange now o.ioTimeout payload with ⟨conn', _ | ⟨t, _ | _⟩⟩ <;>
    exact ⟨attempt_modify .., rfl, rfl⟩

/-- What the first attempt of all makes of a peer. -/
def Peer.attempt (o : ClientOptions) (p : Peer) : Call :=
  ({ id := 0 } : Client).connect o 0 { rest := p }

/-- **An attempt at a later time.** It adds the connection that the first attempt of all would
have, and ends like it, only later. -/
theorem Client.connect_later (o : ClientOptions) (now : Duration) (net : Network) {p : Peer}
    (hp : net.peer net.connections.length = p) :
    let call := ({ id := net.connections.length } : Client).connect o now net
    ∃ conn, (p.attempt o).network = { rest := p, connections := [conn] } ∧
      call.network = net.attempt (conn.later now) ∧
      call.ending = (p.attempt o).ending.later now := by
  intro call
  have hrest : ({ rest := p } : Network).peer 0 = p := rfl
  have hlater : ∀ fate, ({ peer := p, fate } : Connection).later now = { peer := p, fate } :=
    fun fate => Connection.later_of_inbox rfl now
  obtain ⟨d, e, he⟩ : ∃ d e, establish o.connectTimeout p = (d, e) := ⟨_, _, rfl⟩
  have ht : 0 + d + now = now + d := by grind
  simp only [call, Peer.attempt, connect, ne_eq, not_true_eq_false, if_false, hp, hrest, he,
    List.length_nil]
  cases e with
  | never => exact ⟨_, rfl, by rw [hlater], rfl⟩
  | timedOut l => exact ⟨_, rfl, by rw [hlater], by simp only [Ending.later, Option.map_some, ht]⟩
  | refused x => exact ⟨_, rfl, by rw [hlater], by simp only [Ending.later, Option.map_some, ht]⟩
  | connected =>
    simp only
    cases hx : p.optionError with
    | some x => exact ⟨_, rfl, by rw [hlater], by simp only [Ending.later, Option.map_some, ht]⟩
    | none =>
      cases hh : o.handshake with
      | none => exact ⟨_, rfl, by rw [hlater], by simp only [Ending.later, Option.map_some, ht]⟩
      | some hello =>
        let c (n : Nat) : Client := { id := n, state := .connected, stream := some n }
        have hlast := exchange_last o (c net.connections.length) (now + d) hello net
          { peer := p, fate := .open } rfl
        have hfirst := exchange_last o (c 0) (0 + d) hello { rest := p }
          { peer := p, fate := .open } rfl
        have hex := Connection.exchange_later (δ := now) { peer := p, fate := .open } (0 + d)
          o.ioTimeout hello
        rw [hlater, ht] at hex
        rw [hex, Connection.kept_later] at hlast
        refine ⟨_, hfirst.1, hlast.1, ?_⟩
        have hmap : ∀ ending : Ending, (ending.later now).map (fun x => (x.1, x.2.map fun _ => d)) =
            Ending.later now (ending.map fun x => (x.1, x.2.map fun _ => d)) := by
          intro ending
          cases ending <;> rfl
        exact (congrArg _ hlast.2.1).trans ((hmap _).trans (congrArg _ (congrArg _ hfirst.2.1.symm)))

end EchoLoad
