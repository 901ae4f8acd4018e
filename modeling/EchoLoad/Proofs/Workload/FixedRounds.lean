import EchoLoad.Proofs.Census
import EchoLoad.Proofs.Honest.Waits
import EchoLoad.Proofs.Workload.AllPhases
import EchoLoad.Proofs.Workload.Established
/-!
A sweep of fixed rounds against honest peers, from the first attempt to the last close. Its pool is
complete, every phase does all its rounds, and every connection has had the requests that are due
to it. Main statements: `growPool_ends`, `phase_ends`, `advance_ends` and `sweep_fixed_rounds`.
-/

namespace EchoLoad

/-! ## The pool -/

/-- **A pool of honest peers is complete.** A batch that all members join adds one client at least,
so there are batches enough. -/
theorem World.growPool_ends {set : Setting} {peer : Nat → Peer} {w : World} {target : Nat}
    (batch : Nat) (hp : ∀ i < target, (peer i).Honest set.options)
    (hshake : set.options.HandshakeFits)
    (batches : Nat) (pool : PoolOutcome) (hl : Ledger set.options { held := pool.clients } w)
    (hq : w.NoBatch) (hw : w.workers = [])
    (h : w.Answering set.options peer (fun _ => set.options.handshakes) pool.clients)
    (hlen : w.network.connections.length = pool.clients.length) (hnone : pool.failure = none)
    (hle : pool.clients.length ≤ target) (hbatches : target ≤ pool.clients.length + batches) :
    ∃ w' pool', Settles (fun fuel => growPool set fuel target batch batches pool w) (w', pool') ∧
      pool'.clients.length = target ∧ pool'.failure = none ∧
      w'.network.connections.length = target ∧
      w'.Answering set.options peer (fun _ => set.options.handshakes) pool'.clients := by
  induction batches generalizing pool w with
  | zero =>
    have hfull : pool.clients.length = target := Nat.le_antisymm hle hbatches
    exact ⟨w, pool, .of_ok fun _ => rfl, hfull, hnone, hlen.trans hfull, h⟩
  | succ batches ih =>
    by_cases hfull : target ≤ pool.clients.length
    · have hfull' : pool.clients.length = target := Nat.le_antisymm hle hfull
      refine ⟨w, pool, .of_ok fun fuel => ?_, hfull', hnone, hlen.trans hfull', h⟩
      rw [growPool]
      exact if_pos hfull
    · let size := min (max batch 1) (target - pool.clients.length)
      have hsize : 1 ≤ size ∧ pool.clients.length + size ≤ target := by
        simp only [size]
        omega
      obtain ⟨w1, out, hconnect, hrefusals, h1⟩ := connectBatch_ends size hw h
        (fun i hi => hp i (by omega)) hshake
      obtain ⟨fuel, hok⟩ := hconnect.exists_ok
      obtain ⟨hl1, hq1, -, hcount, hlen1, hidle⟩ := connectBatch_ledger hl hq hok
      rw [hrefusals] at hl1 hcount
      have hw1 : w1.workers = [] := ((hidle rfl).2 hw).1
      let pool1 : PoolOutcome := { pool with clients := pool.clients ++ out.connected }
      have hpool1 : pool1.clients.length = pool.clients.length + size := by
        rw [List.length_append]
        exact congrArg _ hcount
      obtain ⟨w', pool', hrest, hend⟩ := ih pool1 hl1 hq1 hw1 h1
        (by rw [hlen1, hlen, hpool1]) hnone (by omega) (by omega)
      refine ⟨w', pool', hconnect.follow hrest fun fuel hok => ?_, hend⟩
      exact growPool_goes_on hfull h.stopped (hlen ▸ hok) hrefusals

namespace Session

variable {set : Setting} {o : Output}

/-- **A workload gets its pool.** -/
theorem establish_ends {s : Session} {clients : Nat} (batch : Nat) (hw : s.world.Fresh)
    (hsignals : s.world.signals = []) (hstopped : s.world.stopped = false)
    (hp : ∀ i < clients, (s.world.network.peer i).Honest set.options)
    (hshake : set.options.HandshakeFits)
    (hjoins : (s.store.writable (o.path "join-lat" "csv")).isOk = true) :
    ∃ s' pool joins, Settles (fun fuel => s.establish set fuel clients batch o)
        (s', .ok (pool, joins)) ∧
      pool.length = clients ∧ s'.world.network.connections.length = clients ∧
      s'.world.Answering set.options s.world.network.peer (fun _ => set.options.handshakes) pool ∧
      s.store.Puts (o.path "join-lat" "csv") s'.store := by
  have hfresh : s.world.Answering set.options s.world.network.peer
      (fun _ => set.options.handshakes) [] :=
    ⟨rfl, hsignals, hstopped, hw.failures, hw.refusals, by simp [hw.dials], by simp [hw.workers],
      by simp [hw.connections]⟩
  obtain ⟨w, pool, hgrow, hlen, hnone, hconns, h⟩ := World.growPool_ends batch hp
    hshake clients {} (Ledger.of_fresh hw) hw.noBatch hw.workers hfresh
    (congrArg List.length hw.connections) rfl (Nat.zero_le _) (Nat.le_add_left ..)
  obtain ⟨s', hwrite, hworld, hputs⟩ := writeSeries_total w.takeJoins.1
    { s with world := w.takeJoins.2 } hjoins
  refine ⟨s', pool.clients, w.takeJoins.1.length, ?_, hlen, ?_, ?_, hputs⟩
  · refine Settles.bind hgrow (.of_ok fun fuel => ?_)
    simp only [hnone, hwrite]
    rfl
  · rw [hworld]
    exact hconns
  · rw [hworld]
    exact h.congr rfl rfl rfl rfl rfl (List.Subset.refl _) h.workers (List.Subset.refl _)

end Session

/-! ## Phases -/

namespace Sweep

/-- Between two phases, against honest peers: every connection has had `asked` requests. -/
structure BetweenPhases (set : Setting) (peer : Nat → Peer) (asked joins : Nat) (clients : List Client)
    (w : World) : Prop where
  pooled : Pooled set.options { held := clients, joins } w
  answers : w.Answering set.options peer (fun _ => asked) clients

/-- The figures of a phase in which `pool` clients did `n` rounds each. -/
structure Complete (pool n len : Nat) (p : PhaseSummary) : Prop where
  size : p.size = len
  bytes : p.bytes = pool * n * (4 + len)
  rounds : p.rounds = pool * n
  samples : p.samples = pool * n

variable {set : Setting} {fuel : Nat} {s : SweepSettings} {o : Output} {peer : Nat → Peer}
  {asked joins n size : Nat} {clients : List Client} {w w' : World}

namespace BetweenPhases

theorem quiescent (h : BetweenPhases set peer asked joins clients w) : w.Quiescent :=
  ⟨h.answers.signals, h.pooled.noBatch.dials, h.pooled.workers⟩

theorem requests (h : BetweenPhases set peer asked joins clients w) :
    ∀ x ∈ w.network.connections.map Connection.requests, x = asked := by
  intro x hx
  obtain ⟨conn, hconn, rfl⟩ := List.mem_map.1 hx
  obtain ⟨i, hi⟩ := List.mem_iff_getElem?.1 hconn
  obtain ⟨-, -, c, -, -, hrequests⟩ := h.answers.connections i conn hi
  exact hrequests

theorem takeMessages (h : BetweenPhases set peer asked joins clients w) :
    BetweenPhases set peer asked joins clients w.takeMessages.2 :=
  ⟨h.pooled.takeMessages, h.answers.congr rfl rfl rfl rfl rfl (List.Subset.refl _)
    h.answers.workers (List.Subset.refl _)⟩

end BetweenPhases

theorem pause_ends {p : Sweep} (h : BetweenPhases set peer asked joins clients w) :
    ∃ w', Settles (fun fuel => pause set fuel s p w) w' ∧
      BetweenPhases set peer asked joins clients w' ∧
      w'.network = w.network := by
  obtain ⟨w', hpause, hsame⟩ := pause_quiescent (s := s) (p := p) h.quiescent
  obtain ⟨fuel, hok⟩ := hpause.exists_ok
  have hpooled := pause_pooled h.pooled hok
  obtain rfl | ⟨t, rfl⟩ := hsame
  · exact ⟨_, hpause, h, rfl⟩
  · exact ⟨_, hpause, ⟨hpooled, h.answers.tick t⟩, rfl⟩

theorem phaseStart_answers (h : BetweenPhases set peer asked joins clients w)
    (hsize : size < Frame.lengthBound) :
    (phaseStart set s size clients w).Answering set.options peer (asked + ·.rounds) [] := by
  have hreset :
      w.Answering set.options peer (asked + ·.rounds) (clients.map Client.resetCounters) :=
    h.answers.recount h.pooled.noBatch h.pooled.workers _ fun c _ => ⟨rfl, rfl⟩
  refine World.Answering.spawnAll ?_ fun m hm => ?_
  · exact hreset.congr rfl rfl rfl rfl rfl (List.Subset.refl _) hreset.workers
      (List.Subset.refl _)
  · rwa [show m = size from hm]

/-- **A phase of fixed rounds** against honest peers. Nothing disturbs it, so every client does all
its rounds. -/
theorem phase_ends (h : BetweenPhases set peer asked joins clients w) (hend : s.phaseEnd = .rounds n)
    (hsize : size < Frame.lengthBound) :
    ∃ w' back p, Settles (fun fuel => phase set fuel s size clients w) (w', back, p, none) ∧
      BetweenPhases set peer (asked + n) joins back w' ∧ back.length = clients.length ∧
      w'.network.connections.length = w.network.connections.length ∧
      Complete clients.length n size p := by
  have hcrew : Pooled.Crew set.options { joins } (phaseStart set s size clients w) :=
    phaseStart_crew h.pooled rfl
  have hfailures : w.failures = [] := h.pooled.failures rfl
  have hplan := phasePlan_rounds size hend
  have hlimit : s.phaseEnd.limit? = none := by rw [hend]; rfl
  obtain ⟨w1, back, hjoin, h1⟩ := World.joinAll_ends hcrew.ledger.custody (phaseStart_answers h hsize)
    (phaseStart_running h.pooled.workers hfailures) hcrew.noBatch.dials rfl hplan
  let w' : World := { w1.cancel with sink := w1.sink.collect }
  let p : PhaseSummary := {
    size, bytes := Client.totalBytes back, rounds := Client.totalRounds back
    samples := w'.sink.messages.length, elapsed := w'.now - w.now }
  have hanswers : w'.Answering set.options peer (asked + ·.rounds) back :=
    h1.congr rfl rfl rfl rfl rfl (List.Subset.refl _) h1.workers (List.Subset.refl _)
  have hphase : Settles (fun fuel => phase set fuel s size clients w) (w', back, p, none) := by
    unfold phase
    rw [hlimit]
    exact hjoin.bind (.of_ok fun _ => rfl)
  obtain ⟨fuel, hok⟩ := hphase.exists_ok
  have hpooled := phase_ledger (a := { joins }) h.pooled rfl hok
  obtain ⟨⟨es, ht⟩, hworkers⟩ := phase_tally h.pooled.noBatch.dials h.pooled.workers hfailures hok
  have hclean : w'.failedRounds = [] := by
    rw [hpooled.ledger.rounds, hanswers.failures]
    rfl
  have hundisturbed : w.Undisturbed es w' :=
    ht.undisturbed hclean hanswers.stopped h.answers.signals
  have hrounds : ∀ c ∈ back, c.rounds = n := (ht.intact n hplan hundisturbed).2
  have hsettled : w'.Answering set.options peer (fun _ => asked + n) (back.map id) :=
    hanswers.recount hpooled.noBatch hworkers id fun c hc => ⟨rfl, by rw [hrounds c hc]⟩
  rw [List.map_id] at hsettled
  have hconnections : w'.network.connections.length = w.network.connections.length := by
    obtain ⟨fuel, hok⟩ := hjoin.exists_ok
    rw [show w'.network = w1.network from rfl, World.joinAll_connections hok, phaseStart,
      World.spawnAll_eq]
    rfl
  obtain ⟨hechoes, hbytes, htotal⟩ := ht.totals hworkers
  have htotal : Client.totalRounds back = clients.length * n := by
    rw [(htotal n hplan).2 hundisturbed, Nat.mul_comm]
  obtain ⟨-, -, -, hsamples⟩ := phase_numbers hok
  refine ⟨w', back, p, hphase, ⟨hpooled, hsettled⟩, ht.back_length hworkers,
    hconnections, rfl, ?_, htotal, ?_⟩
  · exact hbytes.trans (congrArg (· * (4 + size)) htotal)
  · rw [hsamples, ht.samples, hechoes, htotal]

theorem betweenPhases_invariant (peer : Nat → Peer) (asked joins pool conns : Nat)
    (hend : s.phaseEnd = .rounds n) :
    PhaseInvariant set s
      (fun i clients w => BetweenPhases set peer (asked + n * i) joins clients w ∧
        clients.length = pool ∧
        w.network.connections.length = conns)
      fun ph => Complete pool n ph.size ph.summary where
  workers _ _ _ h := h.1.pooled.workers
  stopped _ _ _ h := h.1.answers.stopped
  takeMessages _ _ _ h := ⟨h.1.takeMessages, h.2⟩
  pause i p w h := by
    obtain ⟨h, hpool, hconns⟩ := h
    obtain ⟨w', hpause, hw', hnet⟩ := pause_ends (s := s) (p := p) h
    exact ⟨w', hpause, hw', hpool, hnet ▸ hconns⟩
  phase i clients w size h hsize := by
    obtain ⟨h, hpool, hconns⟩ := h
    obtain ⟨w', back, q, hphase, hw', hback, hlen, hq⟩ := phase_ends h hend hsize
    rw [hpool] at hq
    rw [Nat.add_assoc, ← Nat.mul_succ] at hw'
    exact ⟨⟨w, w', size, clients, back, q, none⟩, hphase, rfl, rfl, rfl, rfl, hq.size, hq, hw',
      hback.trans hpool, hlen.trans hconns⟩

/-- **All phases** against honest peers, one for each size in order. -/
theorem advance_ends {sizes : List Nat} {p : Sweep} (session : Session)
    (h : BetweenPhases set peer asked joins p.clients session.world) (hend : s.phaseEnd = .rounds n)
    (hnone : p.failure = none) (hsizes : ∀ size ∈ sizes, size < Frame.lengthBound)
    (hmessages : ∀ size ∈ sizes,
      (session.store.writable (o.path s!"msg-lat-{size}" "csv")).isOk = true)
    (hthroughput : (session.store.writable (o.path "throughput" "csv")).isOk = true) :
    ∃ session' p' phases, Settles (fun fuel => advance set fuel s o sizes p session)
        (session', .ok p') ∧
      BetweenPhases set peer (asked + n * sizes.length) joins p'.clients session'.world ∧
      p'.clients.length = p.clients.length ∧
      session'.world.network.connections.length = session.world.network.connections.length ∧
      p'.failure = none ∧ p'.phases = p.phases ++ phases ∧
      List.Forall₂ (Complete p.clients.length n) sizes phases := by
  obtain ⟨session', p', phs, hadvance, -, ⟨h', hpool, hconns⟩, hnone', hphases, hphs, hall⟩ :=
    (betweenPhases_invariant peer asked joins _ _ hend).advance (i := 0) session ⟨h, rfl, rfl⟩
      hnone hsizes
      hmessages hthroughput
  rw [Nat.zero_add] at h'
  refine ⟨session', p', phs.map PhaseRun.summary, hadvance, h', hpool, hconns, hnone', hphases, ?_⟩
  rw [← hphs, List.forall₂_map_left_iff, List.forall₂_map_right_iff, List.forall₂_same]
  exact hall

/-- **The close** of a pool of honest peers. Every connection is shut down. -/
theorem BetweenPhases.close_ends (h : BetweenPhases set peer asked joins clients w) (batch : Nat)
    (pause : Duration) :
    ∃ w' closed, Settles (fun fuel => w.closeAll set fuel batch pause clients) (w', closed) ∧
      w'.stopped = false ∧
      w'.network.connections.length = w.network.connections.length ∧
      w'.attempts = w'.network.connections.length ∧
      ∀ conn ∈ w'.network.connections, conn.requests = asked ∧ conn.fate = .shutdown := by
  obtain ⟨w', closed, hclose, hcloses⟩ := h.quiescent.closeAll set batch pause clients
  obtain ⟨fuel, hclosed⟩ := hclose.exists_ok
  obtain ⟨hl, hq, hidle⟩ := World.closeAll_ledger (a := { held := clients, joins })
    h.pooled.ledger h.pooled.noBatch hclosed
  obtain ⟨hworkers, hfailures⟩ := hidle h.pooled.workers
  have hrounds : w'.failedRounds = [] := by
    rw [hl.rounds, hfailures, h.answers.failures]
    rfl
  have hattempts : w'.failedAttempts = [] := hq.failedAttempts_eq hl
  have hsettled : Settled set.options _ w' := ⟨hl, rfl, hq, hworkers⟩
  refine ⟨w', closed, hclose, hcloses.stopped.trans h.answers.stopped, ?_,
    World.attempts_eq hl.custody hq.dials, fun conn hconn => ⟨?_, ?_⟩⟩
  · simpa using congrArg List.length hcloses.requests
  · exact h.requests _ (hcloses.requests ▸ List.mem_map_of_mem hconn)
  · obtain ⟨i, hi⟩ := List.mem_iff_getElem?.1 hconn
    exact hsettled.shutdown hrounds hattempts hi

end Sweep

/-! ## A whole sweep -/

/-- **A sweep of fixed rounds against honest peers.** Let each of the peers that the pool meets
connect in time and echo every request in time, at whatever pace and in whatever pieces, let
nothing interrupt the run and let the output be writable. Then the sweep reports: its pool is
complete and nobody has failed, there is one phase for each size in order in which every client did
all `n` rounds, and there was one attempt for each client, whose connection has had a request for
each round, and one for the handshake if there is one, and was shut down. -/
theorem sweep_fixed_rounds (set : Setting) (s : SweepSettings) (o : Output) (session : Session)
    {n : Nat} (hw : session.world.Fresh) (hsignals : session.world.signals = [])
    (hstopped : session.world.stopped = false) (hend : s.phaseEnd = .rounds n)
    (hsizes : ∀ size ∈ s.sizes, size < Frame.lengthBound) (hshake : set.options.HandshakeFits)
    (hpeers : ∀ i < s.clients, (session.world.network.peer i).Honest set.options)
    (hjoins : (session.store.writable (o.path "join-lat" "csv")).isOk = true)
    (hthroughput : (session.store.writable (o.path "throughput" "csv")).isOk = true)
    (hmessages : ∀ size ∈ s.sizes,
      (session.store.writable (o.path s!"msg-lat-{size}" "csv")).isOk = true) :
    ∃ session' r, Settles (fun fuel => Sweep.run set fuel s o session) (session', .ok r) ∧
      r.pool = s.clients ∧ r.joinSamples = s.clients ∧ r.failure = none ∧ r.interrupted = false ∧
      List.Forall₂ (Sweep.Complete s.clients n) s.sizes r.phases ∧
      session'.world.attempts = s.clients ∧
      session'.world.network.connections.length = s.clients ∧
      ∀ conn ∈ session'.world.network.connections,
        conn.requests = n * s.sizes.length + set.options.handshakes ∧ conn.fate = .shutdown := by
  obtain ⟨session1, pool, joins, hestablish, hpool, hconns, hanswers, hputs⟩ :=
    Session.establish_ends s.batchSize hw hsignals hstopped hpeers hshake hjoins
  obtain ⟨fuel, hok⟩ := hestablish.exists_ok
  have hpooled := (Session.establish_ledger hw hok).1 pool joins rfl
  have hjoined : joins = pool.length := (Session.establish_holds hw hok).2
  obtain ⟨store, hstart⟩ := Store.write_total "" (hputs.writable hthroughput)
  have hkept : ∀ path, (session.store.writable path).isOk = true →
      (store.writable path).isOk = true :=
    fun path h => (Store.write_puts hstart).writable (hputs.writable h)
  obtain ⟨session2, p, phases, hadvance, hready, hback, hlen, hnone, hphases, hall⟩ :=
    Sweep.advance_ends (o := o) (p := { clients := pool }) { session1 with store }
      ⟨hpooled, hanswers⟩ hend rfl hsizes (fun size hm => hkept _ (hmessages size hm))
      (hkept _ hthroughput)
  obtain ⟨w, closed, hclose, hstopped', hlen', hattempts, hrequests⟩ :=
    hready.close_ends s.batchSize s.closePause
  have hrun := Sweep.run_settles hestablish hstart hadvance hclose
  have hconnections : w.network.connections.length = s.clients :=
    hlen'.trans (hlen.trans hconns)
  refine ⟨_, _, hrun, hback.trans hpool, hjoined.trans hpool, hnone, hstopped', ?_,
    hattempts.trans hconnections, hconnections, fun conn hconn => ?_⟩
  · rw [hphases, List.nil_append, ← hpool]
    exact hall
  · obtain ⟨hcount, hfate⟩ := hrequests conn hconn
    exact ⟨hcount.trans (Nat.add_comm ..), hfate⟩

/-- Three clients in batches of two do two rounds in each of two phases. One peer gives single
bytes, the others answer at once. -/
theorem sweep_fixed_rounds_three :
    ∃ session' r,
      Settles (fun fuel => Sweep.run
        { options := { handshake := some [1] }, source := SplitMix.source #[] 0 } fuel
        { clients := 3, batchSize := 2, sizes := [0, 3], phaseEnd := .rounds 2 } ⟨".", "r"⟩
        { world := { network :=
          { peers := [{ readChunk := some 1 }], rest := { latency := 0 } } } })
        (session', .ok r) ∧
      r.pool = 3 ∧ r.joinSamples = 3 ∧ r.failure = none ∧
      r.phases.map (fun p => (p.size, p.bytes, p.rounds, p.samples)) =
        [(0, 24, 6, 6), (3, 42, 6, 6)] ∧
      session'.world.attempts = 3 ∧
      ∀ conn ∈ session'.world.network.connections, conn.requests = 5 ∧ conn.fate = .shutdown := by
  let net : Network := { peers := [{ readChunk := some 1 }], rest := { latency := 0 } }
  let o : ClientOptions := { handshake := some [1] }
  have hfresh : ({ network := net } : World).Fresh := ⟨rfl, rfl, rfl, rfl, rfl, rfl, rfl, rfl⟩
  have hpeers : ∀ i, (net.peer i).Honest o := by
    intro i
    match i with
    | 0 => exact ⟨rfl, rfl, rfl, rfl, fun _ => rfl, rfl, by decide, by decide⟩
    | i + 1 => exact ⟨rfl, rfl, rfl, rfl, fun _ => rfl, rfl, nofun, nofun⟩
  have hshake : o.HandshakeFits := by
    intro hello h
    cases h
    decide
  obtain ⟨session', r, hrun, hpool, hjoins, hnone, -, hphases, hattempts, -, hall⟩ :=
    sweep_fixed_rounds { options := o, source := SplitMix.source #[] 0 }
      { clients := 3, batchSize := 2, sizes := [0, 3], phaseEnd := .rounds 2 } ⟨".", "r"⟩
      { world := { network := net } } hfresh rfl rfl rfl (by decide) hshake (fun i _ => hpeers i)
      (by decide +kernel) (by decide +kernel) (by decide +kernel)
  refine ⟨session', r, hrun, hpool, hjoins, hnone, ?_, hattempts, hall⟩
  obtain ⟨p, ps, hp, htail, hphases⟩ := List.forall₂_cons_left_iff.1 hphases
  obtain ⟨q, qs, hq, hnil, hps⟩ := List.forall₂_cons_left_iff.1 htail
  rw [hphases, hps, List.forall₂_nil_left_iff.1 hnil]
  simp [hp.size, hp.bytes, hp.rounds, hp.samples, hq.size, hq.bytes, hq.rounds, hq.samples]

end EchoLoad
