import EchoLoad.Client
/-!
What a call on a client does to the network. An exchange keeps the peer and the fate of its
connection; a round, a connect attempt and a shutdown touch one connection each. Main statements:
`echoRound_open` for a round on an open client and `connect_new` for a first attempt.
-/

namespace EchoLoad

/-! ## Reading -/

namespace Frame

variable {σ : Type} {read : σ → Nat → Read σ} {P : σ → Prop}

def Keeps (read : σ → Nat → Read σ) (P : σ → Prop) : Prop :=
  ∀ s n, P s → (∀ b s', read s n = .data b s' → P s') ∧ ∀ e s', read s n = .failed e s' → P s'

theorem fill_keeps (hr : Keeps read P) (need : Nat) (s : σ) (hs : P s) {f : Filled} {s' : σ}
    (h : fill read need s = some (f, s')) : P s' := by
  fun_induction fill read need s generalizing f s' with
  | case1 s => cases h; exact hs
  | case2 => cases h
  | case3 need s hn e rest he => cases h; exact (hr s _ hs).2 _ _ he
  | case4 need s hn rest he => cases h; exact (hr s _ hs).1 _ _ he
  | case5 need s hn b bs rest he ih =>
    obtain ⟨⟨f', s''⟩, hf, heq⟩ := Option.map_eq_some_iff.1 h
    cases heq
    exact ih ((hr s _ hs).1 _ _ he) hf

theorem decode_keeps (hr : Keeps read P) (limit : Nat) (s : σ) (hs : P s)
    {r : Except FrameError (Option Bytes)} {s' : σ} (h : decode read limit s = some (r, s')) :
    P s' := by
  unfold decode at h
  split at h
  · cases h
  · next e => cases h; exact fill_keeps hr _ _ hs e
  · next e => cases h; exact fill_keeps hr _ _ hs e
  · next e => cases h; exact fill_keeps hr _ _ hs e
  · next head s1 e =>
    have h1 : P s1 := fill_keeps hr _ _ hs e
    simp only at h
    split at h
    · cases h; exact h1
    · split at h
      · cases h
      · next e => cases h; exact fill_keeps hr _ _ h1 e
      · next e => cases h; exact fill_keeps hr _ _ h1 e
      · next e => cases h; exact fill_keeps hr _ _ h1 e

end Frame

/-! ## One connection -/

namespace Connection

def Alike (c c' : Connection) : Prop := c'.peer = c.peer ∧ c'.fate = c.fate

theorem Alike.trans {a b c : Connection} (h : Alike a b) (h' : Alike b c) : Alike a c :=
  ⟨h'.1.trans h.1, h'.2.trans h.2⟩

theorem read_keeps {P : Connection → Prop} (deadline : Option Duration)
    (hP : ∀ c inbox taken, P c → P { c with inbox, taken }) :
    Frame.Keeps (read deadline) fun s => P s.2 := by
  rintro ⟨now, c⟩ n hs
  simp only [read]
  constructor <;> intro _ s' h <;> split at h <;> try cases h
  all_goals
    split at h <;> try cases h
    split at h <;> cases h <;> exact hP _ _ _ hs

theorem writeAll_alike (allowance : Option (Nat × IoError)) (c : Connection) (bytes : Bytes) :
    Alike c (c.writeAll allowance bytes).1 := by
  fun_induction writeAll allowance c bytes with
  | case1 | case2 => exact ⟨rfl, rfl⟩
  | case3 allowance c bytes hb piece hp ha =>
    dsimp only
    rw [if_pos hp]
    exact ⟨rfl, rfl⟩
  | case4 allowance c bytes hb piece hp ha ih =>
    dsimp only
    rw [if_neg hp]
    exact ih

theorem exchange_alike (c : Connection) (now : Duration) (limit : Option Duration)
    (payload : Bytes) : Alike c (c.exchange now limit payload).1 := by
  unfold exchange
  split
  · exact ⟨rfl, rfl⟩
  · next request _ =>
    have hw := writeAll_alike (c.peer.reply c.requests).allowance c request
    simp only
    split
    · next e => rw [e] at hw; exact hw
    · next c1 e =>
      rw [e] at hw
      have hd : Alike c (c1.deliver now (c.peer.reply c.requests) payload) := hw
      split
      · exact hd
      · split
        · next e =>
          exact Frame.decode_keeps (read_keeps _ fun _ _ _ h => h) _ _ hd e
        · exact hd

theorem drop_peer (c : Connection) : c.drop.peer = c.peer := by
  unfold drop
  split <;> rfl

end Connection

theorem Network.forall_mem_modify {P : Connection → Prop} {net : Network}
    (h : ∀ conn ∈ net.connections, P conn) (n : Nat) {f : Connection → Connection}
    (hf : ∀ conn ∈ net.connections, P (f conn)) :
    ∀ conn ∈ (net.modify n f).connections, P conn := by
  intro conn hconn
  obtain ⟨m, hm⟩ := List.mem_iff_getElem?.1 hconn
  rw [modify, List.getElem?_modify] at hm
  obtain ⟨conn', hconn', rfl⟩ := Option.map_eq_some_iff.1 hm
  have hmem : conn' ∈ net.connections := List.mem_of_getElem? hconn'
  split
  · exact hf conn' hmem
  · exact h conn' hmem

/-! ## One client -/

namespace Client

structure Holds (c : Client) (conn : Connection) : Prop where
  isOpen : c.isOpen = true
  stream : c.stream = some c.id
  fate : conn.fate = .open

structure GaveUp (c : Client) (conn : Connection) : Prop where
  isOpen : c.isOpen = false
  stream : c.stream = none
  fate : conn.fate = .dropped

/-- How a round leaves its client: with its connection, unless the round fails. -/
def RoundLeaves (c : Client) (conn : Connection) : Ending → Prop
  | some (_, .error _) => c.GaveUp conn
  | _ => c.Holds conn

theorem failed_gaveUp (c : Client) {conn : Connection} (h : conn.fate = .open) :
    c.failed.GaveUp conn.drop :=
  ⟨rfl, rfl, by simp [Connection.drop, h]⟩

theorem exchange_eq (o : ClientOptions) (c : Client) (now : Duration) (payload : Bytes)
    (net : Network) :
    c.exchange o now payload net =
        ⟨c.failed, net, some (now, .error (.invalidState .unconnected))⟩ ∨
      ∃ n conn conn' client, net.connections[n]? = some conn ∧
        (conn' = (conn.exchange now o.ioTimeout payload).1 ∨
          conn' = (conn.exchange now o.ioTimeout payload).1.drop) ∧
        c.exchange o now payload net =
          ⟨client, net.modify n fun _ => conn', (conn.exchange now o.ioTimeout payload).2⟩ := by
  unfold exchange
  split
  · exact .inl rfl
  · next n conn hheld =>
    obtain ⟨stream, -, hconn⟩ := Option.bind_eq_some_iff.1 hheld
    obtain ⟨conn, hn, heq⟩ := Option.map_eq_some_iff.1 hconn
    cases heq
    refine .inr ⟨n, conn, ?_⟩
    split
    · next conn' t e hexchange =>
      exact ⟨conn'.drop, c.failed, hn, .inr (by rw [hexchange]), by rw [hexchange]⟩
    · next conn' ending _ hexchange =>
      exact ⟨conn', c, hn, .inl (by rw [hexchange]), by rw [hexchange]⟩

/-- An exchange is answered, or fails and gives up the connection, or never ends. -/
theorem exchange_cases (o : ClientOptions) {c : Client} (now : Duration) (payload : Bytes)
    {net : Network} {n : Nat} {conn : Connection} (hs : c.stream = some n)
    (hn : net.connections[n]? = some conn) (hopen : conn.fate = .open) :
    (∃ conn' t latency, conn.exchange now o.ioTimeout payload = (conn', some (t, .ok latency)) ∧
      conn'.peer = conn.peer ∧ conn'.fate = .open ∧
      c.exchange o now payload net = ⟨c, net.modify n fun _ => conn', some (t, .ok latency)⟩) ∨
    (∃ conn' t e, conn'.peer = conn.peer ∧ conn'.fate = .dropped ∧
      c.exchange o now payload net =
        ⟨c.failed, net.modify n fun _ => conn', some (t, .error e)⟩) ∨
    (∃ conn', conn'.peer = conn.peer ∧ conn'.fate = .open ∧
      c.exchange o now payload net = ⟨c, net.modify n fun _ => conn', none⟩) := by
  obtain ⟨hpeer, hfate⟩ := conn.exchange_alike now o.ioTimeout payload
  rw [hopen] at hfate
  obtain ⟨conn', ending, he⟩ : ∃ conn' ending,
      conn.exchange now o.ioTimeout payload = (conn', ending) := ⟨_, _, rfl⟩
  rw [he] at hpeer hfate
  simp only [exchange, hs, Option.bind_some, hn, Option.map_some, he]
  match ending with
  | none => exact .inr (.inr ⟨conn', hpeer, hfate, rfl⟩)
  | some (t, .ok latency) => exact .inl ⟨conn', t, latency, rfl, hpeer, hfate, rfl⟩
  | some (t, .error e) =>
    exact .inr (.inl ⟨conn'.drop, t, e, conn'.drop_peer.trans hpeer,
      (c.failed_gaveUp hfate).fate, rfl⟩)

theorem exchange_open (o : ClientOptions) (c : Client) (now : Duration) (payload : Bytes)
    (net : Network) (conn : Connection) (hc : c.Holds conn)
    (hn : net.connections[c.id]? = some conn) :
    ∃ conn', (c.exchange o now payload net).network = net.modify c.id (fun _ => conn') ∧
      conn'.peer = conn.peer ∧ (c.exchange o now payload net).client.id = c.id ∧
      RoundLeaves (c.exchange o now payload net).client conn'
        (c.exchange o now payload net).ending := by
  obtain ⟨conn', t, latency, -, hpeer, hfate, he⟩ | ⟨conn', t, e, hpeer, hfate, he⟩ |
    ⟨conn', hpeer, hfate, he⟩ := exchange_cases o now payload hc.stream hn hc.fate
  · rw [he]
    exact ⟨conn', rfl, hpeer, rfl, hc.isOpen, hc.stream, hfate⟩
  · rw [he]
    exact ⟨conn', rfl, hpeer, rfl, rfl, rfl, hfate⟩
  · rw [he]
    exact ⟨conn', rfl, hpeer, rfl, hc.isOpen, hc.stream, hfate⟩

/-- **A round on an open client.** It touches the connection of that client only, which stays
open unless the round fails. -/
theorem echoRound_open (o : ClientOptions) (c : Client) (now : Duration) (payload : Bytes)
    (net : Network) (conn : Connection) (hc : c.Holds conn)
    (hn : net.connections[c.id]? = some conn) :
    ∃ conn', (c.echoRound o now payload net).network = net.modify c.id (fun _ => conn') ∧
      conn'.peer = conn.peer ∧ (c.echoRound o now payload net).client.id = c.id ∧
      RoundLeaves (c.echoRound o now payload net).client conn'
        (c.echoRound o now payload net).ending := by
  have ha : ({ c with state := .active } : Client).Holds conn := ⟨rfl, hc.stream, hc.fate⟩
  obtain ⟨conn', h1, h2, h3, h4⟩ := exchange_open o { c with state := .active } now payload net _ ha hn
  refine ⟨conn', ?_⟩
  simp only [echoRound, hc.isOpen, if_true]
  split
  · next e =>
    rw [e] at h4 ⊢
    exact ⟨h1, h2, h3, h4.isOpen, h4.stream.trans (by rw [h3]), h4.fate⟩
  · exact ⟨h1, h2, h3, h4⟩

/-! ## A first attempt to connect -/

/-- Why a client did not connect, read off its connection: it was refused, its deadline was
missed, its transport option could not be set, or its handshake failed. -/
inductive Declined (o : ClientOptions) (conn : Connection) : ClientError → Prop
  | refused {d : Duration} {x : IoError} :
      establish o.connectTimeout conn.peer = (d, .refused x) → conn.fate = .refused →
        Declined o conn (.connect x)
  | late {d l : Duration} {x : IoError} :
      establish o.connectTimeout conn.peer = (d, .timedOut l) → conn.fate = .pending →
        Declined o conn (.connect x)
  | option {d : Duration} {x : IoError} :
      establish o.connectTimeout conn.peer = (d, .connected) → conn.peer.optionError = some x →
        conn.fate = .dropped → Declined o conn (.connect x)
  | handshake {d : Duration} {hello : Bytes} {e : ClientError} :
      establish o.connectTimeout conn.peer = (d, .connected) → conn.peer.optionError = none →
        o.handshake = some hello → conn.fate = .dropped → Declined o conn e

def ConnectLeaves (o : ClientOptions) (c : Client) (conn : Connection) : Ending → Prop
  | some (_, .ok _) => c.Holds conn
  | some (_, .error e) => Declined o conn e
  | none => True

theorem attempt_getElem? (net : Network) (conn : Connection) :
    (net.attempt conn).connections[net.connections.length]? = some conn := by
  simp [Network.attempt]

theorem attempt_modify (net : Network) (conn conn' : Connection) :
    (net.attempt conn).modify net.connections.length (fun _ => conn') = net.attempt conn' := by
  simp [Network.attempt, Network.modify, List.modify_eq_take_drop]

/-- **A first attempt.** It adds one connection, to the peer whose turn it is. -/
theorem connect_new (o : ClientOptions) (now : Duration) (net : Network) :
    let call := ({ id := net.connections.length } : Client).connect o now net
    ∃ conn, call.network = net.attempt conn ∧ conn.peer = net.peer net.connections.length ∧
      call.client.id = net.connections.length ∧
      ConnectLeaves o call.client conn call.ending := by
  intro call
  obtain ⟨delay, e, he⟩ : ∃ delay e,
      establish o.connectTimeout (net.peer net.connections.length) = (delay, e) := ⟨_, _, rfl⟩
  simp only [call, connect, ne_eq, not_true_eq_false, if_false, he]
  cases e with
  | never => exact ⟨_, rfl, rfl, rfl, trivial⟩
  | timedOut l => exact ⟨_, rfl, rfl, rfl, .late he rfl⟩
  | refused x => exact ⟨_, rfl, rfl, rfl, .refused he rfl⟩
  | connected =>
    simp only
    cases hx : (net.peer net.connections.length).optionError with
    | some x => exact ⟨_, rfl, rfl, rfl, .option he hx rfl⟩
    | none =>
      cases hh : o.handshake with
      | none => exact ⟨_, rfl, rfl, rfl, rfl, rfl, rfl⟩
      | some hello =>
        let c : Client :=
          { id := net.connections.length, state := .connected, stream := some net.connections.length }
        let conn : Connection := { peer := net.peer net.connections.length, fate := .open }
        obtain ⟨conn', h1, h2, h3, h4⟩ := exchange_open o c (now + delay) hello (net.attempt conn)
          conn ⟨rfl, rfl, rfl⟩ (attempt_getElem? net conn)
        rw [attempt_modify] at h1
        refine ⟨conn', h1, h2, h3, ?_⟩
        dsimp only
        cases hc : (c.exchange o (now + delay) hello (net.attempt conn)).ending with
        | none => trivial
        | some ending =>
          rw [hc] at h4
          obtain ⟨t, r⟩ := ending
          cases r with
          | ok latency => exact h4
          | error e =>
            have hp : conn'.peer = net.peer net.connections.length := h2
            exact .handshake (hp ▸ he) (hp ▸ hx) hh h4.fate

/-! ## A client keeps its id -/

section Ids

variable (o : ClientOptions) (c : Client) (now : Duration) (net : Network)

theorem exchange_id (payload : Bytes) : (c.exchange o now payload net).client.id = c.id := by
  unfold exchange
  split
  · rfl
  · split <;> rfl

theorem connect_id : (c.connect o now net).client.id = c.id := by
  unfold connect
  split
  · rfl
  · dsimp only
    split
    · rfl
    · rfl
    · rfl
    · split
      · rfl
      · split
        · rfl
        · exact exchange_id ..

theorem echoRound_id (payload : Bytes) : (c.echoRound o now payload net).client.id = c.id := by
  have hexchange := exchange_id o { c with state := .active } now net payload
  unfold echoRound
  split
  · dsimp only
    split <;> exact hexchange
  · rfl

end Ids

end Client

end EchoLoad
