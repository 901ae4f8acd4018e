import EchoLoad.Proofs.Faithful
import EchoLoad.Proofs.Idle
import EchoLoad.Proofs.Meter
/-!
The time before the first round. Clients connect and are closed, nothing but handshakes is sent, and
what becomes of an attempt is what its peer makes of it. Main statements:
`BeforeLoops.internalStep` for what happens while a controller waits, and
`BeforeLoops.connectBatch_returns` for a batch whose attempts all end.
-/

namespace EchoLoad

/-! ## What becomes of an attempt -/

/-- What becomes of a call: nothing if it never ends, and else its error if it fails. -/
def Ending.outcome? (ending : Ending) : Option (Option ClientError) :=
  ending.map fun x =>
    match x.2 with
    | .ok _ => none
    | .error e => some e

/-- What becomes of an attempt to connect to this peer. -/
def Peer.outcome? (o : ClientOptions) (p : Peer) : Option (Option ClientError) :=
  (p.attempt o).ending.outcome?

theorem Ending.outcome?_later (δ : Duration) (ending : Ending) :
    (ending.later δ).outcome? = ending.outcome? := by
  cases ending <;> rfl

theorem Peer.accepts_iff {o : ClientOptions} {p : Peer} :
    p.accepts o = true ↔ p.outcome? o = some none := by
  unfold Peer.accepts Peer.outcome?
  rcases (p.attempt o).ending with _ | ⟨t, e | latency⟩ <;> simp [Ending.outcome?]

/-! ## Handshakes on the wire -/

/-- Nothing has been sent but the handshake, or a front part of it. -/
def Connection.OnlyHandshake (o : ClientOptions) (c : Connection) : Prop :=
  match o.handshake with
  | none => c.requests = 0 ∧ c.accepted = []
  | some hello => c.requests ≤ 1 ∧ c.accepted <+: Frame.wire hello

namespace Connection.OnlyHandshake

variable {o : ClientOptions} {c c' : Connection}

theorem congr (h : c.OnlyHandshake o) (hrequests : c'.requests = c.requests)
    (hwritten : c'.written = c.written) : c'.OnlyHandshake o := by
  have haccepted : c'.accepted = c.accepted := by rw [accepted, hwritten, accepted]
  unfold OnlyHandshake at h ⊢
  rw [hrequests, haccepted]
  exact h

theorem new (o : ClientOptions) (peer : Peer) (fate : Fate) :
    ({ peer, fate } : Connection).OnlyHandshake o := by
  unfold OnlyHandshake
  split
  · exact ⟨rfl, rfl⟩
  · exact ⟨Nat.zero_le 1, List.nil_prefix⟩

theorem drop (h : c.OnlyHandshake o) : c.drop.OnlyHandshake o := by
  unfold Connection.drop
  split
  · exact h.congr rfl rfl
  · exact h

theorem exchange {hello : Bytes} (hh : o.handshake = some hello) (peer : Peer) (now : Duration) :
    (({ peer, fate := .open } : Connection).exchange now o.ioTimeout hello).1.OnlyHandshake o := by
  obtain ⟨front, hfront, haccepted, -, hrequests, -⟩ := exchange_accepts
    (Prod.mk.eta (p := ({ peer, fate := .open } : Connection).exchange now o.ioTimeout hello)).symm
  unfold OnlyHandshake
  rw [hh]
  exact ⟨hrequests, haccepted ▸ hfront⟩

end Connection.OnlyHandshake

/-- **A first attempt sends no more than the handshake.** -/
theorem Peer.attempt_onlyHandshake (o : ClientOptions) (p : Peer) :
    ∀ conn ∈ (p.attempt o).network.connections, conn.OnlyHandshake o := by
  suffices h : ∃ conn, (p.attempt o).network = ({ rest := p } : Network).attempt conn ∧
      conn.OnlyHandshake o by
    obtain ⟨conn, hnet, hconn⟩ := h
    rw [hnet]
    intro c hc
    rwa [List.mem_singleton.1 hc]
  obtain ⟨d, e, he⟩ : ∃ d e, Client.establish o.connectTimeout p = (d, e) := ⟨_, _, rfl⟩
  have hrest : ({ rest := p } : Network).peer 0 = p := rfl
  simp only [Peer.attempt, Client.connect, ne_eq, not_true_eq_false, if_false, hrest, he,
    List.length_nil]
  cases e with
  | never | timedOut | refused => exact ⟨_, rfl, .new ..⟩
  | connected =>
    dsimp only
    cases p.optionError with
    | some x => exact ⟨_, rfl, .new ..⟩
    | none =>
      cases hh : o.handshake with
      | none => exact ⟨_, rfl, .new ..⟩
      | some hello =>
        have hlast := Client.exchange_last o { id := 0, state := .connected, stream := some 0 }
          (0 + d) hello { rest := p } { peer := p, fate := .open } rfl
        refine ⟨_, hlast.1, ?_⟩
        have hsent := Connection.OnlyHandshake.exchange hh p (0 + d)
        unfold Connection.kept
        split
        · exact hsent.drop
        · exact hsent

/-- An attempt adds a connection on which there is no more than the handshake, and comes to what the
peer makes of it. -/
theorem Client.connect_onlyHandshake (o : ClientOptions) (now : Duration) (net : Network) :
    let call := ({ id := net.connections.length } : Client).connect o now net
    ∃ conn, call.network = net.attempt conn ∧ conn.OnlyHandshake o ∧
      call.ending.outcome? = (net.peer net.connections.length).outcome? o := by
  intro call
  obtain ⟨conn, hfirst, hnet, hending⟩ := connect_later o now net rfl
  refine ⟨conn.later now, hnet, ?_, ?_⟩
  · have hconn : conn.OnlyHandshake o := Peer.attempt_onlyHandshake o _ conn (by rw [hfirst]; simp)
    exact hconn.congr rfl rfl
  · rw [hending, Ending.outcome?_later]
    rfl

namespace World

/-! ## The world before the first round -/

/-- No loop has run: nothing but handshakes is on the connections, and each attempt comes, or has
come, to what its peer makes of it. -/
structure BeforeLoops (o : ClientOptions) (peer : Nat → Peer) (w : World) : Prop where
  peers : w.network.peer = peer
  workers : w.workers = []
  rounds : ∀ e ∈ w.events, e.isRound = false
  connections : ∀ conn ∈ w.network.connections, conn.OnlyHandshake o
  dials : ∀ d ∈ w.dials, d.ending.outcome? = (peer d.id).outcome? o
  resolved : ∀ n failure, .resolved n failure ∈ w.events → (peer n).outcome? o = some failure

variable {set : Setting} {o : ClientOptions} {peer : Nat → Peer} {w w' : World}

theorem Fresh.handshake (h : w.Fresh) : w.BeforeLoops o w.network.peer where
  peers := rfl
  workers := h.workers
  rounds := by simp [events, h.journal]
  connections := by simp [h.connections]
  dials := by simp [h.dials]
  resolved := by simp [events, h.journal]

namespace BeforeLoops

theorem congr (h : w.BeforeLoops o peer) (hnet : w'.network = w.network)
    (hworkers : w'.workers = w.workers) (hevents : w'.events = w.events)
    (hdials : ∀ d ∈ w'.dials, d ∈ w.dials) : w'.BeforeLoops o peer where
  peers := hnet ▸ h.peers
  workers := hworkers.trans h.workers
  rounds := hevents ▸ h.rounds
  connections := hnet ▸ h.connections
  dials d hd := h.dials d (hdials d hd)
  resolved := hevents ▸ h.resolved

theorem resolve (h : w.BeforeLoops o peer) {n : Nat} {failure : Option ClientError}
    (hfailure : (peer n).outcome? o = some failure) (hnet : w'.network = w.network)
    (hworkers : w'.workers = w.workers) (hevents : w'.events = .resolved n failure :: w.events)
    (hdials : ∀ d ∈ w'.dials, d ∈ w.dials) : w'.BeforeLoops o peer where
  peers := hnet ▸ h.peers
  workers := hworkers.trans h.workers
  rounds e he := by
    rw [hevents] at he
    rcases List.mem_cons.1 he with rfl | he
    · rfl
    · exact h.rounds e he
  connections := hnet ▸ h.connections
  dials d hd := h.dials d (hdials d hd)
  resolved m e he := by
    rw [hevents] at he
    rcases List.mem_cons.1 he with he | he
    · cases he
      exact hfailure
    · exact h.resolved m e he

/-- **Whatever happens before the first round**, it is still to come. -/
theorem internalStep (h : w.BeforeLoops o peer) (hs : InternalStep set w w') :
    w'.BeforeLoops o peer := by
  cases hs with
  | signal hsignal =>
    rw [interrupted_eq hsignal]
    exact h.congr rfl rfl rfl fun _ hd => hd
  | @arrived i c t latency hd =>
    have hpeer : (peer c.id).outcome? o = some none :=
      (h.dials _ (List.mem_of_getElem? hd)).symm
    exact h.resolve hpeer rfl rfl rfl fun _ hd => List.eraseIdx_subset hd
  | @declined i c t e hd =>
    have hpeer : (peer c.id).outcome? o = some (some e) :=
      (h.dials _ (List.mem_of_getElem? hd)).symm
    exact h.resolve hpeer rfl rfl rfl fun _ hd => List.eraseIdx_subset hd
  | echoed hk | broken hk | start hk | retire hk => simp [h.workers] at hk

/-! ## What the controller does -/

theorem dial (h : w.BeforeLoops set.options peer) :
    (w.dial set w.network.connections.length).BeforeLoops set.options peer := by
  obtain ⟨conn, hnet, hconn, houtcome⟩ := Client.connect_onlyHandshake set.options w.now w.network
  refine ⟨?_, h.workers, fun e he => ?_, fun c hc => ?_, fun d hd => ?_, fun n failure he => ?_⟩
  · rw [← h.peers, World.dial]
    dsimp only
    rw [hnet]
    rfl
  · rcases List.mem_cons.1 he with rfl | he
    · rfl
    · exact h.rounds e he
  · rw [World.dial] at hc
    dsimp only at hc
    rw [hnet] at hc
    rcases List.mem_append.1 hc with hc | hc
    · exact h.connections c hc
    · rwa [List.mem_singleton.1 hc]
  · rcases List.mem_append.1 hd with hd | hd
    · exact h.dials d hd
    · rw [List.mem_singleton.1 hd, ← h.peers]
      exact houtcome.trans (by rw [Dial.id, Client.connect_id])
  · rcases List.mem_cons.1 he with he | he
    · cases he
    · exact h.resolved n failure he

theorem dialBatch (h : w.BeforeLoops set.options peer) (size : Nat) :
    (w.dialBatch set w.network.connections.length size).BeforeLoops set.options peer := by
  induction size generalizing w with
  | zero => exact h
  | succ size ih =>
    have hrest := ih h.dial
    rwa [dial_length] at hrest

theorem close (h : w.BeforeLoops o peer) (c : Client) : (w.close c).BeforeLoops o peer := by
  unfold World.close
  split
  · next hopen =>
    have hclose : (c.close w.network).2.peer = peer ∧
        ∀ conn ∈ (c.close w.network).2.connections, conn.OnlyHandshake o := by
      rw [Client.close, if_pos hopen]
      dsimp only
      cases c.stream with
      | none => exact ⟨h.peers, h.connections⟩
      | some n =>
        exact ⟨h.peers, Network.forall_mem_modify h.connections n fun conn hconn =>
          (h.connections conn hconn).congr rfl rfl⟩
    refine ⟨hclose.1, h.workers, fun e he => ?_, hclose.2, h.dials, fun n failure he => ?_⟩
    · rcases List.mem_cons.1 he with rfl | he
      · rfl
      · exact h.rounds e he
    · rcases List.mem_cons.1 he with he | he
      · cases he
      · exact h.resolved n failure he
  · exact h

theorem closeBatch (h : w.BeforeLoops o peer) (clients : List Client) :
    (w.closeBatch clients).1.BeforeLoops o peer :=
  closeBatch_keeps (fun _ c h => h.close c) clients h

/-! ## A batch -/

/-- **A batch keeps to handshakes.** -/
theorem connectBatch (h : w.BeforeLoops set.options peer) {fuel size : Nat} {out : BatchOutcome}
    {seen : Option Failure}
    (hc : w.connectBatch set fuel w.network.connections.length size false = .ok (w', out, seen)) :
    w'.BeforeLoops set.options peer := by
  obtain ⟨⟨w1, seen1⟩, ha, he⟩ := map_eq_ok.1 hc
  cases he
  have hw1 : w1.BeforeLoops set.options peer := by
    refine attend_rule (I := fun _ w => w.BeforeLoops set.options peer)
      (Q := fun w _ => w.BeforeLoops set.options peer)
      (fun _ _ _ h => h.congr rfl rfl rfl fun _ hd => hd) (fun _ _ _ h hs => h.internalStep hs) ?_
      (h.dialBatch size) ha
    intro s w w' b h hr
    cases hr with
    | alarm ha => cases ha
    | mail hm => cases hm
    | joined _ _ hj => cases hj
    | ended => exact h
  exact hw1.congr rfl rfl rfl fun _ hd => hd

/-- **A batch whose attempts all end is over at some time**, whatever interrupts arrive. -/
theorem connectBatch_returns (h : w.BeforeLoops set.options peer) (hd : w.dials = []) (size : Nat)
    (hends : ∀ n ∈ List.range' w.network.connections.length size,
      (peer n).outcome? set.options ≠ none) :
    Returns fun fuel => w.connectBatch set fuel w.network.connections.length size false := by
  have hall : ∀ d ∈ (w.dialBatch set w.network.connections.length size).dials, d.ending ≠ none := by
    intro d hmem hnone
    have hid : d.id ∈ (w.dialBatch set w.network.connections.length size).dials.map Dial.id :=
      List.mem_map_of_mem hmem
    rw [dialBatch_ids, hd] at hid
    refine hends d.id hid ?_
    rw [← (h.dialBatch size).dials d hmem, hnone]
    rfl
  exact connectBatch_idle_returns false h.workers hall

end BeforeLoops

end World

end EchoLoad
