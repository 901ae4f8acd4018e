import EchoLoad.Proofs.Fair
import EchoLoad.Proofs.Faithful.Echo
import EchoLoad.Proofs.Tally
/-!
A world of honest peers: every attempt connects and every round is echoed, so nothing ever fails,
and each connection has had as many requests as are due to its client. Main statements:
`Answering.internalStep` and `Answering.dial`.
-/

namespace EchoLoad

/-! ## Honest peers -/

/-- A peer that connects in time and echoes every request in time, in whatever pieces it takes and
gives the bytes. An echo may be there at once. -/
structure Peer.Honest (o : ClientOptions) (p : Peer) : Prop where
  never : p.never = false
  refuse : p.refuse = none
  optionError : p.optionError = none
  connectDelay : Connection.late o.connectTimeout p.connectDelay = false
  reply : ∀ k, p.reply k = .echo
  latency : Connection.late o.ioTimeout p.latency = false
  readChunk : p.readChunk ≠ some 0
  writeChunk : p.writeChunk ≠ some 0

/-- The requests that a client makes to connect. -/
def ClientOptions.handshakes (o : ClientOptions) : Nat := if o.handshake.isSome then 1 else 0

/-- The handshake can be sent, if there is one. -/
def ClientOptions.HandshakeFits (o : ClientOptions) : Prop :=
  ∀ hello, o.handshake = some hello → hello.length < Frame.lengthBound

theorem Connection.exchange_honest {o : ClientOptions} {c : Connection} (now : Duration)
    {payload : Bytes} (hp : c.peer.Honest o) (hinbox : c.inbox = [])
    (hlen : payload.length < Frame.lengthBound) :
    ∃ c' t latency, c.exchange now o.ioTimeout payload = (c', some (t, .ok latency)) ∧
      c'.peer = c.peer ∧ c'.inbox = [] ∧ c'.requests = c.requests + 1 := by
  obtain ⟨c', h⟩ := exchange_echo now (hp.reply _) hp.latency hp.readChunk hp.writeChunk hinbox hlen
  exact ⟨c', _, _, h⟩

namespace Client

variable {o : ClientOptions}

theorem establish_honest {p : Peer} (hp : p.Honest o) :
    establish o.connectTimeout p = (p.connectDelay, .connected) := by
  have hdelay := hp.connectDelay
  unfold establish
  cases hl : o.connectTimeout with
  | none => simp [hp.never, hp.refuse]
  | some l =>
    rw [hl] at hdelay
    simp only [Connection.late, decide_eq_false_iff_not] at hdelay
    simp [hp.never, hp.refuse, hdelay]

/-- **An attempt that meets an honest peer** connects. -/
theorem connect_honest (now : Duration) {net : Network}
    (hp : (net.peer net.connections.length).Honest o) (hshake : o.HandshakeFits) :
    let call := ({ id := net.connections.length } : Client).connect o now net
    ∃ conn t latency, call.network = net.attempt conn ∧ call.ending = some (t, .ok latency) ∧
      call.client.id = net.connections.length ∧ conn.peer.Honest o ∧ conn.inbox = [] ∧
      conn.requests = o.handshakes := by
  intro call
  simp only [call, connect, ne_eq, not_true_eq_false, if_false, establish_honest hp, hp.optionError]
  cases hh : o.handshake with
  | none =>
    refine ⟨_, _, _, rfl, rfl, rfl, hp, rfl, ?_⟩
    simp [ClientOptions.handshakes, hh]
  | some hello =>
    let conn : Connection := { peer := net.peer net.connections.length, fate := .open }
    obtain ⟨conn', t, latency, hex, hpeer, hinbox, hrequests⟩ := Connection.exchange_honest
      (c := conn) (now + (net.peer net.connections.length).connectDelay) hp rfl (hshake hello hh)
    have hrequests : conn'.requests = o.handshakes := by
      simp [hrequests, conn, ClientOptions.handshakes, hh]
    simp only [exchange, Option.bind_some, attempt_getElem?, Option.map_some]
    rw [hex]
    exact ⟨conn', t, _, attempt_modify .., rfl, rfl, hpeer ▸ hp, hinbox, hrequests⟩

/-- **A round over the connection of an honest peer** is echoed and counted. -/
theorem echoRound_honest {c : Client} {conn : Connection} {net : Network} {payload : Bytes}
    (now : Duration) (hhold : c.Holds conn) (hn : net.connections[c.id]? = some conn)
    (hp : conn.peer.Honest o) (hinbox : conn.inbox = [])
    (hlen : payload.length < Frame.lengthBound) :
    let call := c.echoRound o now payload net
    ∃ conn' t latency, call.network = net.modify c.id (fun _ => conn') ∧
      call.ending = some (t, .ok latency) ∧ call.client.id = c.id ∧
      call.client.rounds = c.rounds + 1 ∧ conn'.peer.Honest o ∧ conn'.inbox = [] ∧
      conn'.requests = conn.requests + 1 := by
  intro call
  obtain ⟨conn', t, latency, hex, hpeer', hinbox', hrequests'⟩ :=
    conn.exchange_honest now hp hinbox hlen
  obtain ⟨hnet, hending⟩ := echoRound_echoed hhold hn (by rw [hex])
  rw [hex] at hnet
  have hrounds := c.echoRound_counts o now payload net
  rw [hending] at hrounds
  obtain ⟨-, -, -, hid, -⟩ := c.echoRound_open o now payload net conn hhold hn
  exact ⟨conn', t, latency, hnet, hending, hid, hrounds.1, hpeer' ▸ hp, hinbox', hrequests'⟩

end Client

/-! ## Honest worlds -/

/-- All clients: in hand, just connected, in an attempt or in a loop. -/
def World.clients (held : List Client) (w : World) : List Client :=
  held ++ w.connected ++ (w.dials.map Dial.client ++ w.workers.map Worker.client)

/-- A loop whose payloads fit a frame, and whose round under way will be echoed. -/
structure Worker.Answered (k : Worker) : Prop where
  fits : ∀ n, k.plan.payload.Allows n → n < Frame.lengthBound
  round : ∀ ending, k.stage = .busy ending → ∃ t latency, ending = some (t, .ok latency)

/-- Nothing can fail and nothing interrupts the run, and each connection has had the requests that
are due to its client. -/
structure World.Answering (o : ClientOptions) (peer : Nat → Peer) (due : Client → Nat)
    (held : List Client) (w : World) : Prop where
  peers : w.network.peer = peer
  signals : w.signals = []
  stopped : w.stopped = false
  failures : w.failures = []
  refusals : w.refusals = []
  dials : ∀ d ∈ w.dials, ∃ t latency, d.ending = some (t, .ok latency)
  workers : ∀ k ∈ w.workers, k.Answered
  connections : ∀ n conn, w.network.connections[n]? = some conn →
    conn.peer.Honest o ∧ conn.inbox = [] ∧
      ∃ c ∈ w.clients held, c.id = n ∧ conn.requests = due c

/-- Each round that a client counts is one request more. -/
def CountsRounds (due : Client → Nat) : Prop :=
  ∀ c c' : Client, c'.id = c.id → c'.rounds = c.rounds + 1 → due c' = due c + 1

theorem countsRounds_add (asked : Nat → Nat) : CountsRounds fun c => asked c.id + c.rounds := by
  intro c c' hid hrounds
  dsimp only
  rw [hid, hrounds, Nat.add_assoc]

theorem Worker.Answered.at_rest {k k' : Worker} (h : k.Answered) (hplan : k'.plan = k.plan)
    (hs : ∀ ending, k'.stage ≠ .busy ending) : k'.Answered :=
  ⟨hplan ▸ h.fits, fun ending hb => (hs ending hb).elim⟩

namespace World

variable {o : ClientOptions} {peer : Nat → Peer} {due : Client → Nat}
  {held held' : List Client} {set : Setting} {w w' : World} {c : Client}

theorem clients_eq (hq : w.NoBatch) (hw : w.workers = []) (held : List Client) :
    w.clients held = held := by
  simp [clients, hq.dials, hq.connected, hw]

theorem eq_of_mem_clients (h : c ∈ w.clients held) (hc : Custody o held w) {i : Nat} {k : Worker}
    (hk : w.workers[i]? = some k) (hid : c.id = k.client.id) : c = k.client := by
  obtain ⟨conn, es, hv, -⟩ := hc.at_worker hk
  simp only [view, View.mk.injEq] at hv
  obtain ⟨-, -, hdials, hworkers, hhands⟩ := hv
  rcases List.mem_append.1 h with hmem | hmem
  · have hfiber : c ∈ fiber Client.id k.id (held ++ w.connected) := mem_fiber.2 ⟨hmem, hid⟩
    rw [hhands] at hfiber
    cases hfiber
  rcases List.mem_append.1 hmem with hmem | hmem
  · obtain ⟨d, hd, rfl⟩ := List.mem_map.1 hmem
    have hfiber : d ∈ fiber Dial.id k.id w.dials := mem_fiber.2 ⟨hd, hid⟩
    rw [hdials] at hfiber
    cases hfiber
  · obtain ⟨x, hx, rfl⟩ := List.mem_map.1 hmem
    have hfiber : x ∈ fiber Worker.id k.id w.workers := mem_fiber.2 ⟨hx, hid⟩
    rw [hworkers] at hfiber
    rw [List.mem_singleton.1 hfiber]

namespace Answering

theorem congr (h : w.Answering o peer due held) (hnet : w'.network = w.network)
    (hsignals : w'.signals = w.signals) (hstopped : w'.stopped = w.stopped)
    (hfailures : w'.failures = w.failures) (hrefusals : w'.refusals = w.refusals)
    (hdials : w'.dials ⊆ w.dials) (hworkers : ∀ k ∈ w'.workers, k.Answered)
    (hclients : w.clients held ⊆ w'.clients held') : w'.Answering o peer due held' where
  peers := hnet ▸ h.peers
  signals := hsignals.trans h.signals
  stopped := hstopped.trans h.stopped
  failures := hfailures.trans h.failures
  refusals := hrefusals.trans h.refusals
  dials d hd := h.dials d (hdials hd)
  workers := hworkers
  connections n conn hn := by
    rw [hnet] at hn
    obtain ⟨hpeer, hinbox, c, hc, hid, hrequests⟩ := h.connections n conn hn
    exact ⟨hpeer, hinbox, c, hclients hc, hid, hrequests⟩

theorem set_worker (h : w.Answering o peer due held) {i : Nat} {k : Worker} (k' : Worker)
    (hk : w.workers[i]? = some k) (hclient : k'.client = k.client) (hk' : k'.Answered)
    (hworkers : w'.workers = w.workers.set i k') (hnet : w'.network = w.network)
    (hsignals : w'.signals = w.signals) (hstopped : w'.stopped = w.stopped)
    (hfailures : w'.failures = w.failures) (hrefusals : w'.refusals = w.refusals)
    (hdials : w'.dials = w.dials) (hconnected : w'.connected = w.connected) :
    w'.Answering o peer due held := by
  refine h.congr hnet hsignals hstopped hfailures hrefusals (hdials ▸ List.Subset.refl _) ?_ ?_
  · rw [hworkers]
    exact forall_mem_set h.workers hk'
  · have hsame := map_set_same (f := Worker.client) hk hclient
    rw [clients, clients, hworkers, hsame, hdials, hconnected]
    exact List.Subset.refl _

theorem tick (h : w.Answering o peer due held) (t : Duration) :
    (w.tick t).Answering o peer due held :=
  ⟨h.peers, h.signals, h.stopped, h.failures, h.refusals, h.dials, h.workers, h.connections⟩

/-! ## What happens while the controller waits -/

theorem arrived (h : w.Answering o peer due held) {i : Nat} {d : Dial} {latency : Duration}
    (hd : w.dials[i]? = some d) : (w.arrived i d.client latency).Answering o peer due held := by
  refine h.congr rfl rfl rfl rfl rfl List.eraseIdx_subset h.workers fun c hc => ?_
  simp only [clients, World.arrived, note, List.mem_append, List.mem_singleton] at hc ⊢
  rcases hc with hc | hc | hc
  · exact .inl (hc.imp_right .inl)
  · obtain ⟨x, hx, rfl⟩ := List.mem_map.1 hc
    rcases mem_eraseIdx_or_eq hd hx with hx | rfl
    · exact .inr (.inl (List.mem_map_of_mem hx))
    · exact .inl (.inr (.inr rfl))
  · exact .inr (.inr hc)

theorem start (hdue : CountsRounds due) (h : w.Answering set.options peer due held)
    (hc : Custody set.options held w)
    {i : Nat} {k : Worker} (hk : w.workers[i]? = some k) (hs : k.stage = .ready) {payload : Bytes}
    (hlen : payload.length < Frame.lengthBound) (source : Source) :
    (w.startRound set i k payload source).Answering set.options peer due held := by
  obtain ⟨conn, es, hv, hwk⟩ := hc.at_worker hk
  have hhold := (hwk.of_ready hs).1
  have hn : w.network.connections[k.client.id]? = some conn := congrArg View.connection hv
  obtain ⟨hhonest, hinbox, c, hmem, hid, hrequests⟩ := h.connections _ conn hn
  obtain rfl : c = k.client := eq_of_mem_clients hmem hc hk hid
  obtain ⟨conn', t, latency, hnet, hending, hid', hrounds, hhonest', hinbox', hrequests'⟩ :=
    Client.echoRound_honest w.now hhold hn hhonest hinbox hlen
  let call := k.client.echoRound set.options w.now payload w.network
  let k' : Worker := { k with client := call.client, source, stage := .busy call.ending }
  obtain ⟨hi, -⟩ := List.getElem?_eq_some_iff.1 hk
  refine ⟨?_, h.signals, h.stopped, h.failures, h.refusals, h.dials, fun x hx => ?_, ?_⟩
  · rw [startRound]
    dsimp only
    rw [hnet]
    exact h.peers
  · rcases List.mem_or_eq_of_mem_set hx with hx | rfl
    · exact h.workers x hx
    · refine ⟨(h.workers k (List.mem_of_getElem? hk)).fits, fun ending hb => ?_⟩
      cases hb
      exact ⟨t, latency, hending⟩
  · intro n conn₁ hn₁
    rw [startRound] at hn₁
    dsimp only at hn₁
    rw [hnet] at hn₁
    by_cases hne : k.client.id = n
    · subst hne
      simp only [Network.modify, List.getElem?_modify_eq, hn, Option.map_eq_map, Option.map_some,
        Option.some.injEq] at hn₁
      subst hn₁
      refine ⟨hhonest', hinbox', call.client, ?_, hid', ?_⟩
      · exact List.mem_append_right _ (List.mem_append_right _
          (List.mem_map_of_mem (f := Worker.client) (List.mem_set hi k')))
      · rw [hrequests', hrequests, hdue _ _ hid' hrounds]
    · rw [Network.modify, List.getElem?_modify_ne _ _ hne] at hn₁
      obtain ⟨hpeer, hinbox, c, hmem, hcid, hreq⟩ := h.connections n conn₁ hn₁
      refine ⟨hpeer, hinbox, c, ?_, hcid, hreq⟩
      simp only [clients, startRound, note, List.mem_append] at hmem ⊢
      refine hmem.imp_right (Or.imp_right fun hmem => ?_)
      obtain ⟨x, hx, rfl⟩ := List.mem_map.1 hmem
      rcases mem_set_or_eq k' hk hx with hx | rfl
      · exact List.mem_map_of_mem hx
      · exact (hne hcid).elim

/-- **An honest world stays honest**, whatever happens in it. -/
theorem internalStep (hdue : CountsRounds due) (h : w.Answering set.options peer due held)
    (hc : Custody set.options held w)
    (hs : InternalStep set w w') : w'.Answering set.options peer due held := by
  cases hs with
  | signal hsignal =>
    rw [h.signals] at hsignal
    cases hsignal
  | arrived hd => exact h.arrived hd
  | declined hd =>
    obtain ⟨t, latency, he⟩ := h.dials _ (List.mem_of_getElem? hd)
    cases he
  | @echoed i k t latency hk =>
    have hanswered := h.workers k (List.mem_of_getElem? hk)
    exact h.set_worker k.advance hk rfl (hanswered.at_rest rfl fun _ he => by cases he)
      rfl rfl rfl rfl rfl rfl rfl rfl
  | broken hk hb =>
    obtain ⟨t, latency, he⟩ := (h.workers _ (List.mem_of_getElem? hk)).round _ hb
    cases he
  | @start i length k source hk hst ha hb hp =>
    have hfits := (h.workers k (List.mem_of_getElem? hk)).fits
    refine h.start hdue hc hk hst ?_ _
    rw [Payload.fill_length]
    exact hfits length (PayloadSize.sample_allows hp)
  | @retire i k hk =>
    have hanswered := h.workers k (List.mem_of_getElem? hk)
    exact h.set_worker { k with stage := .done } hk rfl
      (hanswered.at_rest rfl fun _ he => by cases he) rfl rfl rfl rfl rfl rfl rfl rfl

/-! ## What the controller does -/

/-- **An attempt is begun.** -/
theorem dial (h : w.Answering set.options peer (fun _ => set.options.handshakes) held)
    (hp : (peer w.network.connections.length).Honest set.options)
    (hshake : set.options.HandshakeFits) :
    (w.dial set w.network.connections.length).Answering set.options peer
      (fun _ => set.options.handshakes) held := by
  rw [← h.peers] at hp
  obtain ⟨conn, t, latency, hnet, hending, hid, hpeer, hinbox, hrequests⟩ :=
    Client.connect_honest w.now hp hshake
  let call := ({ id := w.network.connections.length } : Client).connect set.options w.now w.network
  have hclients : ∀ c, c ∈ w.clients held ∨ c = call.client →
      c ∈ (w.dial set w.network.connections.length).clients held := by
    intro c hc
    simp only [clients, World.dial, note, List.map_append, List.map_cons, List.map_nil,
      List.mem_append, List.mem_singleton] at hc ⊢
    tauto
  refine ⟨?_, h.signals, h.stopped, h.failures, h.refusals, fun x hx => ?_, h.workers, ?_⟩
  · rw [World.dial]
    dsimp only
    rw [hnet]
    exact h.peers
  · rcases List.mem_append.1 hx with hx | hx
    · exact h.dials x hx
    · rw [List.mem_singleton.1 hx]
      exact ⟨t, latency, hending⟩
  · intro n conn₁ hn
    rw [World.dial] at hn
    dsimp only at hn
    rw [hnet, Network.attempt, List.getElem?_append] at hn
    split at hn
    · obtain ⟨hpeer, hinbox, c, hc, hcid, hreq⟩ := h.connections n conn₁ hn
      exact ⟨hpeer, hinbox, c, hclients c (.inl hc), hcid, hreq⟩
    · next hge =>
      rw [List.getElem?_singleton] at hn
      split at hn
      · next hlast =>
        obtain rfl : conn = conn₁ := Option.some.inj hn
        exact ⟨hpeer, hinbox, call.client, hclients _ (.inr rfl), hid.trans (by omega), hrequests⟩
      · cases hn

theorem dialBatch (size : Nat)
    (h : w.Answering set.options peer (fun _ => set.options.handshakes) held)
    (hp : ∀ i < w.network.connections.length + size, (peer i).Honest set.options)
    (hshake : set.options.HandshakeFits) :
    (w.dialBatch set w.network.connections.length size).Answering set.options peer
      (fun _ => set.options.handshakes) held := by
  induction size generalizing w with
  | zero => exact h
  | succ size ih =>
    have hlen : (w.dial set w.network.connections.length).network.connections.length =
        w.network.connections.length + 1 := dial_length
    have hnext := ih (h.dial (hp _ (by omega)) hshake) fun i hi => hp i (by omega)
    rw [hlen] at hnext
    exact hnext

/-- While all clients are in hand their counters may be changed, if as much is due as before. -/
theorem recount {due' : Client → Nat} (h : w.Answering o peer due held) (hq : w.NoBatch)
    (hw : w.workers = []) (f : Client → Client)
    (hf : ∀ c ∈ held, (f c).id = c.id ∧ due' (f c) = due c) :
    w.Answering o peer due' (held.map f) := by
  refine ⟨h.peers, h.signals, h.stopped, h.failures, h.refusals, h.dials, h.workers,
    fun n conn hn => ?_⟩
  obtain ⟨hpeer, hinbox, c, hc, hid, hrequests⟩ := h.connections n conn hn
  rw [clients_eq hq hw] at hc
  obtain ⟨hfid, hdue⟩ := hf c hc
  refine ⟨hpeer, hinbox, f c, ?_, hfid.trans hid, hrequests.trans hdue.symm⟩
  rw [clients_eq hq hw]
  exact List.mem_map_of_mem hc

/-- The counters are reset: what each connection has had until now is due to its client anyway. -/
theorem reset (h : w.Answering o peer due held) (hq : w.NoBatch) (hw : w.workers = []) :
    ∃ asked : Nat → Nat,
      w.Answering o peer (fun c => asked c.id + c.rounds) (held.map Client.resetCounters) := by
  refine ⟨fun n => w.network.connections[n]?.elim 0 Connection.requests, h.peers, h.signals,
    h.stopped, h.failures, h.refusals, h.dials, h.workers, fun n conn hn => ?_⟩
  obtain ⟨hpeer, hinbox, c, hc, hid, -⟩ := h.connections n conn hn
  rw [clients_eq hq hw] at hc
  refine ⟨hpeer, hinbox, c.resetCounters, ?_, hid, ?_⟩
  · rw [clients_eq hq hw]
    exact List.mem_map_of_mem hc
  · rw [show c.resetCounters.id = n from hid]
    dsimp only
    rw [hn]
    rfl

theorem perm (h : w.Answering o peer due held) (hp : held.Perm held') :
    w.Answering o peer due held' :=
  h.congr rfl rfl rfl rfl rfl (List.Subset.refl _) h.workers
    ((hp.append_right _).append_right _).subset

theorem handOver (h : w.Answering o peer due held) :
    w.handOver.1.Answering o peer due (held ++ w.handOver.2.connected) := by
  have hp : (held ++ w.connected).Perm (held ++ w.handOver.2.connected) :=
    (List.mergeSort_perm ..).symm.append_left _
  refine h.congr rfl rfl rfl rfl h.refusals.symm (List.Subset.refl _) h.workers ?_
  rw [clients, clients, World.handOver, List.append_nil]
  exact (hp.append_right _).subset

theorem spawnAll {plan : EchoPlan} (h : w.Answering o peer due held)
    (hfits : ∀ n, plan.payload.Allows n → n < Frame.lengthBound) :
    (held.foldl (World.spawn set plan) w).Answering o peer due [] := by
  rw [spawnAll_eq]
  refine h.congr rfl rfl rfl rfl rfl (List.Subset.refl _) ?_ fun c hc => ?_
  · intro k hk
    rcases List.mem_append.1 hk with hk | hk
    · exact h.workers k hk
    · obtain ⟨c, -, rfl⟩ := List.mem_map.1 hk
      exact ⟨hfits, fun _ he => by cases he⟩
  · simp only [clients, List.nil_append, List.map_append, List.map_map, Function.comp_def,
      newLoop_client, List.map_id', List.mem_append] at hc ⊢
    tauto

theorem join (h : w.Answering o peer due held) {i : Nat} {k : Worker}
    (hk : w.workers[i]? = some k) :
    ({ w with workers := w.workers.eraseIdx i } : World).Answering o peer due
      (held ++ [k.client]) := by
  refine h.congr rfl rfl rfl rfl rfl (List.Subset.refl _)
    (fun x hx => h.workers x (List.eraseIdx_subset hx)) fun c hc => ?_
  simp only [clients, List.mem_append, List.mem_singleton] at hc ⊢
  rcases hc with (hc | hc) | hc | hc
  · exact .inl (.inl (.inl hc))
  · exact .inl (.inr hc)
  · exact .inr (.inl hc)
  · obtain ⟨x, hx, rfl⟩ := List.mem_map.1 hc
    rcases mem_eraseIdx_or_eq hk hx with hx | rfl
    · exact .inr (.inr (List.mem_map_of_mem hx))
    · exact .inl (.inl (.inr rfl))

end Answering

end World

end EchoLoad
