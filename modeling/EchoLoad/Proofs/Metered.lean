import EchoLoad.Proofs.RunStep
import EchoLoad.Proofs.Idle
import EchoLoad.Proofs.Meter
/-!
Meters in a world. While no round is under way the wire gets handshakes only; while a crew works it
gets what its clients count, and for each round that fails at most what that round would have
counted. Main statements: `Meter.addsHandshakesOnly_kept` and `Meter.Balance.joinAll`.
-/

namespace EchoLoad

variable {set : Setting}

theorem World.close_length (w : World) (c : Client) :
    (w.close c).network.connections.length = w.network.connections.length := by
  unfold World.close Client.close
  split
  · dsimp only
    split
    · exact List.length_modify ..
    · rfl
  · rfl

namespace Meter

variable (m : Meter)

/-! ## Without rounds -/

theorem total_fate {net : Network} {n : Nat} {f : Connection → Connection}
    (hf : ∀ conn, m.onWire (f conn) = m.onWire conn) : m.total (net.modify n f) = m.total net := by
  refine congrArg List.sum (List.ext_getElem? fun i => ?_)
  simp only [Network.modify, List.getElem?_map, List.getElem?_modify]
  cases net.connections[i]? with
  | none => rfl
  | some conn =>
    by_cases hi : n = i
    · simp [hi, hf]
    · simp [hi]

theorem total_attempt (net : Network) (conn : Connection) :
    m.total (net.attempt conn) = m.total net + m.onWire conn := by
  simp [total, Network.attempt]

/-- Since `base` each connection made has its handshake on the wire, and nothing else was added,
unless there were rounds, or an attempt has failed or is going to. -/
def AddsHandshakesOnly (o : ClientOptions) (base w : World) : Prop :=
  ∃ es, w.events = es ++ base.events ∧
    ((∀ e ∈ es, e.isRound = false) → (∀ e ∈ es, e.failedAttempt? = none) →
      (∀ d ∈ w.dials, d.ending.succeeds = true) →
      m.total w.network + base.network.connections.length * m.handshake o =
        m.total base.network + w.network.connections.length * m.handshake o)

namespace AddsHandshakesOnly

variable {m} {o : ClientOptions} {base w w' : World}

theorem congr (h : m.AddsHandshakesOnly o base w) (hevents : w'.events = w.events)
    (hdials : w'.dials = w.dials)
    (htotal : m.total w'.network = m.total w.network)
    (hlen : w'.network.connections.length = w.network.connections.length) :
    m.AddsHandshakesOnly o base w' := by
  obtain ⟨es, hes, hquiet⟩ := h
  exact ⟨es, hevents.trans hes, by rw [hdials, htotal, hlen]; exact hquiet⟩

theorem note (h : m.AddsHandshakesOnly o base w) {e : Event} (hevents : w'.events = e :: w.events)
    (hnew : e.isRound = false → e.failedAttempt? = none →
      (∀ d ∈ w'.dials, d.ending.succeeds = true) →
      (∀ d ∈ w.dials, d.ending.succeeds = true) ∧
        m.total w'.network + w.network.connections.length * m.handshake o =
          m.total w.network + w'.network.connections.length * m.handshake o) :
    m.AddsHandshakesOnly o base w' := by
  obtain ⟨es, hes, hquiet⟩ := h
  refine ⟨e :: es, by rw [hevents, hes]; rfl, fun hrounds hattempts hdials => ?_⟩
  obtain ⟨hdials', hadds⟩ :=
    hnew (hrounds e List.mem_cons_self) (hattempts e List.mem_cons_self) hdials
  have hbefore := hquiet (fun x hx => hrounds x (List.mem_cons_of_mem _ hx))
    (fun x hx => hattempts x (List.mem_cons_of_mem _ hx)) hdials'
  omega

theorem internalStep (h : m.AddsHandshakesOnly o base w) (hs : World.InternalStep set w w') :
    m.AddsHandshakesOnly o base w' := by
  cases hs with
  | signal hsignal =>
    rw [World.interrupted_eq hsignal]
    exact h.congr rfl rfl rfl rfl
  | @arrived i c t latency hd =>
    refine h.note (e := .resolved c.id none) rfl fun _ _ hdials => ⟨fun d hmem => ?_, rfl⟩
    obtain ⟨hi, hget⟩ := List.getElem?_eq_some_iff.1 hd
    rcases List.mem_cons.1 ((List.getElem_cons_eraseIdx_perm hi).mem_iff.2 hmem) with rfl | hmem
    · rw [hget]
      rfl
    · exact hdials d hmem
  | @declined i c t e => exact h.note (e := .resolved c.id (some e)) rfl fun _ hnone => nomatch hnone
  | @echoed i k => exact h.note (e := .roundEnded k.client.id none) rfl nofun
  | @broken i k t e => exact h.note (e := .roundEnded k.client.id (some e)) rfl nofun
  | @start i length k => exact h.note (e := .roundStarted k.client.id) rfl nofun
  | retire => exact h.congr rfl rfl rfl rfl

theorem dial (h : m.AddsHandshakesOnly set.options base w) (id : Nat) :
    m.AddsHandshakesOnly set.options base (w.dial set id) := by
  obtain ⟨conn, hnet, hhandshake⟩ := m.connect_adds set.options id w.now w.network
  refine h.note (e := .attempt id) rfl fun _ _ hdials => ⟨fun d hmem => ?_, ?_⟩
  · exact hdials d (List.mem_append_left _ hmem)
  · have hok := hhandshake (hdials _ (List.mem_append_right _ (List.mem_singleton_self _)))
    have hdialed : (w.dial set id).network = w.network.attempt conn := hnet
    rw [hdialed, total_attempt, hok, Network.attempt, List.length_append, List.length_singleton,
      Nat.succ_mul]
    omega

theorem close (h : m.AddsHandshakesOnly o base w) (c : Client) :
    m.AddsHandshakesOnly o base (w.close c) := by
  have htotal : m.total (w.close c).network = m.total w.network := by
    unfold World.close Client.close
    split
    · dsimp only
      split
      · exact m.total_fate fun conn => m.onWire_fate conn _
      · rfl
    · rfl
  have hlen := World.close_length w c
  by_cases hopen : c.isOpen = true
  · refine h.note (e := .closed c.id) (by rw [World.close, if_pos hopen]; rfl) fun _ _ hdials => ?_
    rw [htotal, hlen]
    exact ⟨by rwa [World.close, if_pos hopen] at hdials, rfl⟩
  · rw [World.close, if_neg hopen]
    exact h

theorem release (h : m.AddsHandshakesOnly o base w) (clients : List Client) :
    m.AddsHandshakesOnly o base (w.release clients) := by
  have hfold : ∀ (streams : List Nat) (net : Network),
      m.total (streams.foldl (fun net n => net.modify n Connection.drop) net) = m.total net ∧
        (streams.foldl (fun net n => net.modify n Connection.drop) net).connections.length =
          net.connections.length := by
    intro streams
    induction streams with
    | nil => exact fun _ => ⟨rfl, rfl⟩
    | cons n streams ih =>
      intro net
      obtain ⟨htotal, hlen⟩ := ih (net.modify n Connection.drop)
      exact ⟨htotal.trans (m.total_fate m.onWire_drop), hlen.trans (List.length_modify ..)⟩
  obtain ⟨htotal, hlen⟩ := hfold (clients.filterMap Client.stream) w.network
  exact h.congr rfl rfl htotal hlen

end AddsHandshakesOnly

/-- **Without rounds the wire gets handshakes only**, whatever else happens. -/
theorem addsHandshakesOnly_kept (set : Setting) (base : World) :
    World.Kept set (m.AddsHandshakesOnly set.options base) := by
  intro w w' h hmove
  cases hmove with
  | pass | failures | join | cancel | restart | spawn | sink | handOver =>
    exact h.congr rfl rfl rfl rfl
  | internalStep hs => exact h.internalStep hs
  | dial id => exact h.dial id
  | close c => exact h.close c
  | release clients => exact h.release clients

theorem AddsHandshakesOnly.refl (o : ClientOptions) (w : World) : m.AddsHandshakesOnly o w w :=
  ⟨[], rfl, fun _ _ _ => rfl⟩

end Meter

namespace Meter

variable (m : Meter) {o : ClientOptions} {fuel : Nat} {w w' : World}

theorem AddsHandshakesOnly.between (h : m.AddsHandshakesOnly o w w') (hidle : w.Idle w')
    (hattempts : w'.failedAttempts = [])
    (hdials : w'.dials = []) :
    m.total w'.network + w.network.connections.length * m.handshake o =
      m.total w.network + w'.network.connections.length * m.handshake o := by
  obtain ⟨es, hes, hquiet⟩ := h
  obtain ⟨es', hes', hrounds⟩ := hidle.events
  obtain rfl : es = es' := List.append_cancel_right (hes.symm.trans hes')
  refine hquiet hrounds (fun e he => ?_) (by simp [hdials])
  have hmem : e ∈ w'.events.reverse := by
    rw [hes]
    exact List.mem_reverse.2 (List.mem_append_left _ he)
  exact List.filterMap_eq_nil_iff.1 hattempts e hmem

/-- A world after `base` in which no connection has been made since. -/
def NoNewConnection (o : ClientOptions) (base w : World) : Prop :=
  m.AddsHandshakesOnly o base w ∧ w.network.connections.length = base.network.connections.length

theorem noNewConnection_lasting (set : Setting) (base : World) :
    World.Lasting set (m.NoNewConnection set.options base) := by
  intro w w' ⟨hadds, hlen⟩ hd
  refine ⟨m.addsHandshakesOnly_kept set base w w' hadds hd.runStep, ?_⟩
  cases hd with
  | internalStep hs => exact hs.connections_length.trans hlen
  | _ => exact hlen

theorem NoNewConnection.close {base : World} (h : m.NoNewConnection o base w) (c : Client) :
    m.NoNewConnection o base (w.close c) :=
  ⟨h.1.close c, (World.close_length w c).trans h.2⟩

theorem NoNewConnection.unmoved (h : m.NoNewConnection o w w') (hidle : w.Idle w')
    (hattempts : w'.failedAttempts = []) (hdials : w'.dials = []) :
    m.total w'.network = m.total w.network := by
  have hbetween := h.1.between m hidle hattempts hdials
  rw [h.2] at hbetween
  exact Nat.add_right_cancel hbetween

/-- **A pause adds nothing.** -/
theorem sleep_unmoved {d : Duration} (hworkers : w.workers = [])
    (hattempts : w'.failedAttempts = [])
    (hdials : w'.dials = []) (h : w.sleep set fuel d = .ok w') :
    m.total w'.network = m.total w.network := by
  have hsince : m.NoNewConnection set.options w w' :=
    (World.sleep_leaves (m.noNewConnection_lasting set w).anyPlan ⟨.refl m _ _, rfl⟩).ok h
  exact hsince.unmoved m (World.sleep_idle hworkers h) hattempts hdials

/-- **Closing adds nothing.** -/
theorem closeAll_unmoved {batch n : Nat} {pause : Duration} {clients : List Client}
    (hworkers : w.workers = []) (hattempts : w'.failedAttempts = []) (hdials : w'.dials = [])
    (h : w.closeAll set fuel batch pause clients = .ok (w', n)) :
    m.total w'.network = m.total w.network := by
  have hsince : m.NoNewConnection set.options w w' :=
    (World.closeAll_leaves (m.noNewConnection_lasting set w).anyPlan (fun _ c h => h.close m c)
      ⟨.refl m _ _, rfl⟩).ok h
  exact hsince.unmoved m (World.closeAll_idle hworkers h) hattempts hdials

end Meter

/-! ## A crew -/

/-- What the wire may be ahead of the counters because of a round that will fail. -/
def Worker.excess (limit : Nat) (k : Worker) : Nat :=
  match k.stage with
  | .busy ending => if ending.succeeds then 0 else limit
  | _ => 0

/-- A crew of `pool` clients, of which those in `back` have come back. The wire is ahead of their
counters by `base`, and by at most `limit` for each round that has failed or will. -/
structure Meter.Balance (m : Meter) (limit pool base : Nat) (back : List Client) (w : World) :
    Prop where
  pool : w.workers.length + back.length = pool
  limits : ∀ k ∈ w.workers, ∀ n, k.plan.payload.Allows n → m.round n ≤ limit
  least : base + (w.workers.map fun k => m.counted k.client).sum + (back.map m.counted).sum ≤
    m.total w.network
  most : m.total w.network ≤
    base + (w.workers.map fun k => m.counted k.client).sum + (back.map m.counted).sum +
      (w.workers.map (Worker.excess limit)).sum + w.failedRounds.length * limit

namespace Meter.Balance

variable {m : Meter} {limit pool base : Nat} {back back' : List Client} {w w' : World} {i : Nat}
  {k k' : Worker}

theorem congr (h : m.Balance limit pool base back w) (hback : back.Perm back')
    (hworkers : w'.workers = w.workers) (hnet : w'.network = w.network)
    (hevents : w'.events = w.events) : m.Balance limit pool base back' w' := by
  have hsum := (hback.map m.counted).sum_eq
  constructor
  · rw [hworkers, ← hback.length_eq]
    exact h.pool
  · rw [hworkers]
    exact h.limits
  · rw [hworkers, hnet, ← hsum]
    exact h.least
  · rw [hworkers, hnet, World.failedRounds_congr hevents, ← hsum]
    exact h.most

theorem start (hlimits : ∀ k ∈ w.workers, ∀ n, k.plan.payload.Allows n → m.round n ≤ limit)
    (hnone : ∀ k ∈ w.workers, m.counted k.client = 0) :
    m.Balance limit w.workers.length (m.total w.network) [] w := by
  have hcounted : (w.workers.map fun k => m.counted k.client).sum = 0 :=
    List.sum_eq_zero fun x hx => by
      obtain ⟨k, hk, rfl⟩ := List.mem_map.1 hx
      exact hnone k hk
  refine ⟨rfl, hlimits, ?_, ?_⟩
  · rw [hcounted]
    rfl
  · rw [hcounted]
    exact Nat.le_add_right_of_le (Nat.le_add_right _ _)

/-- **The wire when a crew has come back.** -/
theorem complete (h : m.Balance limit pool base back w) (hw : w.workers = []) :
    back.length = pool ∧ base + (back.map m.counted).sum ≤ m.total w.network ∧
      m.total w.network ≤
        base + (back.map m.counted).sum + w.failedRounds.length * limit := by
  have hpool := h.pool
  have hleast := h.least
  have hmost := h.most
  rw [hw] at hpool hleast hmost
  exact ⟨(Nat.zero_add _).symm.trans hpool, hleast, hmost⟩

theorem set_worker (h : m.Balance limit pool base back w) (k' : Worker) (added failed : Nat)
    (hk : w.workers[i]? = some k) (hplan : k'.plan = k.plan)
    (hworkers : w'.workers = w.workers.set i k')
    (htotal : m.total w'.network = m.total w.network + added)
    (hfailed : w'.failedRounds.length = w.failedRounds.length + failed)
    (hleast : m.counted k'.client ≤ m.counted k.client + added)
    (hmost : m.counted k.client + added + k.excess limit ≤
      m.counted k'.client + k'.excess limit + failed * limit) :
    m.Balance limit pool base back w' := by
  have hleast' := h.least
  have hmost' := h.most
  rw [sum_map_eraseIdx hk] at hleast' hmost'
  rw [sum_map_eraseIdx (f := Worker.excess limit) hk] at hmost'
  refine ⟨by rw [hworkers, List.length_set]; exact h.pool, ?_, ?_, ?_⟩
  · rw [hworkers]
    exact forall_mem_set h.limits (hplan ▸ h.limits k (List.mem_of_getElem? hk))
  · rw [hworkers, htotal, sum_map_set hk]
    omega
  · rw [hworkers, htotal, hfailed, sum_map_set hk, sum_map_set hk, Nat.add_mul]
    omega

/-- **The balance is kept by all that happens while the crew is waited for.** -/
theorem internalStep (h : m.Balance limit pool base back w) (hs : World.InternalStep set w w') :
    m.Balance limit pool base back w' := by
  cases hs with
  | signal hsignal =>
    rw [World.interrupted_eq hsignal]
    exact h.congr (List.Perm.refl _) rfl rfl rfl
  | @arrived i c =>
    have hfailed : (w.arrived i c ‹_›).failedRounds = w.failedRounds :=
      World.failedRounds_kept (e := .resolved c.id none) rfl rfl
    exact ⟨h.pool, h.limits, h.least, by rw [hfailed]; exact h.most⟩
  | @declined i c t e =>
    have hfailed : (w.declined i c e).failedRounds = w.failedRounds :=
      World.failedRounds_kept (e := .resolved c.id (some e)) rfl rfl
    exact ⟨h.pool, h.limits, h.least, by rw [hfailed]; exact h.most⟩
  | @echoed i k t latency hk hstage =>
    have hfailed : (w.echoed i k latency).failedRounds = w.failedRounds :=
      World.failedRounds_kept (e := .roundEnded k.client.id none) rfl rfl
    refine h.set_worker k.advance 0 0 hk rfl rfl rfl (by rw [hfailed]; rfl) (Nat.le_refl _) ?_
    simp [Worker.excess, hstage, Worker.advance, Ending.succeeds]
  | @broken i k t e hk hstage =>
    have hfailed : (w.broken i k e).failedRounds = w.failedRounds ++ [⟨k.client.id, e⟩] :=
      World.failedRounds_cons (e := .roundEnded k.client.id (some e)) rfl
    refine h.set_worker { k with stage := .done } 0 1 hk rfl rfl rfl
      (by rw [hfailed, List.length_append]; rfl) (Nat.le_refl _) ?_
    simp [Worker.excess, hstage, Ending.succeeds]
  | @start i length k source hk hready hactive hbudget hsample =>
    have hfailed : (w.startRound set i k (Payload.fill length source).1
        (Payload.fill length source).2).failedRounds = w.failedRounds :=
      World.failedRounds_kept (e := .roundStarted k.client.id) rfl rfl
    let call := k.client.echoRound set.options w.now (Payload.fill length source).1 w.network
    let k' : Worker := { k with
      client := call.client, source := (Payload.fill length source).2, stage := .busy call.ending }
    obtain ⟨added, hle, htotal, hok⟩ := m.echoRound_adds set.options k.client w.now
      (Payload.fill length source).1 w.network
    have hcounts := m.counts set.options k.client w.now (Payload.fill length source).1 w.network
    have hlimit := h.limits k (List.mem_of_getElem? hk) length (PayloadSize.sample_allows hsample)
    rw [Payload.fill_length] at hle hcounts hok
    have hidle : k.excess limit = 0 := by simp only [Worker.excess, hready]
    by_cases hs : call.ending.succeeds = true
    · have hexcess : k'.excess limit = 0 := if_pos hs
      have hcounted : m.counted k'.client = m.counted k.client + m.round length := by
        rw [hcounts, if_pos hs]
      have hadded := hok hs
      exact h.set_worker k' added 0 hk rfl rfl htotal (by rw [hfailed]; rfl) (by omega)
        (by omega)
    · have hexcess : k'.excess limit = limit := if_neg hs
      have hcounted : m.counted k'.client = m.counted k.client := by
        rw [hcounts, if_neg hs, Nat.add_zero]
      exact h.set_worker k' added 0 hk rfl rfl htotal (by rw [hfailed]; rfl) (by omega)
        (by omega)
  | @retire i k hk hready =>
    refine h.set_worker { k with stage := .done } 0 0 hk rfl rfl rfl rfl (Nat.le_refl _) ?_
    simp [Worker.excess, hready]

theorem join (h : m.Balance limit pool base back w) (hk : w.workers[i]? = some k)
    (hdone : k.stage = .done) :
    m.Balance limit pool base (back ++ [k.client]) { w with workers := w.workers.eraseIdx i } := by
  have hleast := h.least
  have hmost := h.most
  rw [sum_map_eraseIdx hk] at hleast hmost
  rw [sum_map_eraseIdx (f := Worker.excess limit) hk,
    show k.excess limit = 0 by simp [Worker.excess, hdone]] at hmost
  obtain ⟨hi, -⟩ := List.getElem?_eq_some_iff.1 hk
  have hpool := h.pool
  refine ⟨?_, fun x hx => h.limits x (List.eraseIdx_subset hx), ?_, ?_⟩
  · rw [List.length_append, List.length_singleton, List.length_eraseIdx_of_lt hi]
    omega
  · rw [List.map_append, List.sum_append, List.map_singleton, List.sum_singleton]
    dsimp only
    omega
  · rw [List.map_append, List.sum_append, List.map_singleton, List.sum_singleton]
    have hfailed : ({ w with workers := w.workers.eraseIdx i } : World).failedRounds =
      w.failedRounds := rfl
    rw [hfailed]
    dsimp only
    omega

/-- **A crew that is waited for keeps the balance.** -/
theorem joinAll {fuel : Nat} {limit? : Option Duration} {clients : List Client}
    {failure : Option Failure} (h : m.Balance limit pool base [] w)
    (hj : w.joinAll set fuel limit? = .ok (w', clients, failure)) :
    m.Balance limit pool base clients w' := by
  have hwait : ∀ w1 (c : World.Crew), w.attend set World.joining fuel
      { deadline := limit?.map (w.now + ·) } = .ok (w1, c) →
        m.Balance limit pool base c.clients w1 := by
    intro w1 c ha
    refine World.attend_rule (I := fun c w => m.Balance limit pool base c.clients w)
      (Q := fun w c => m.Balance limit pool base c.clients w) ?_ ?_ ?_ h ha
    · exact fun _ _ _ h => h.congr (List.Perm.refl _) rfl rfl rfl
    · exact fun _ _ _ h hs => h.internalStep hs
    · intro c w w' b h hr
      cases hr with
      | alarm | mail | ended => exact h.congr (List.Perm.refl _) rfl rfl rfl
      | joined hk hdone => exact h.join hk hdone
  obtain ⟨w1, c, failures, ha, rfl, rfl, -⟩ := World.joinAll_ok hj
  exact (hwait w1 c ha).congr (Client.sortById_perm _).symm rfl rfl rfl

end Meter.Balance

end EchoLoad
