import EchoLoad.Proofs.Checked
import EchoLoad.Proofs.Honest.Crew
import EchoLoad.Proofs.Workload.RunSteps
import EchoLoad.Proofs.Workload.FixedRounds
import EchoLoad.Run
/-!
Work in every phase of a sweep. Against honest peers that take their time a sweep reports, with a
deadline for its phases or with a number of rounds, and in each phase every client does a round at
least. The number of rounds may be 0, which no check of a configuration excludes, and then no client
does any. Main statements: `Sweep.phase_eachEchoes`, `Sweep.run_eachEchoes` and
`Config.every_phase_works`.
-/

namespace EchoLoad

namespace Sweep

/-- Between two phases, against honest peers that take their time. -/
structure BetweenDelayed (set : Setting) (peer : Nat → Peer) (joins : Nat) (clients : List Client)
    (w : World) : Prop where
  pooled : Pooled set.options { held := clients, joins } w
  answers : ∃ due, w.Answering set.options peer due clients
  repliesLater : w.network.RepliesLater

/-- A phase in which each of the clients does a round, if there is one to do. -/
structure PhaseRun.EachEchoes (s : SweepSettings) (pool : Nat) (ph : PhaseRun) : Prop where
  back : ph.back.length = pool
  rounds : ∀ c ∈ ph.back, (1 ≤ c.rounds ↔ s.phaseEnd ≠ .rounds 0)
  total : ph.summary.rounds = Client.totalRounds ph.back

variable {set : Setting} {fuel : Nat} {s : SweepSettings} {o : Output} {peer : Nat → Peer}
  {joins size pool : Nat} {clients : List Client} {w w' : World} {ph : PhaseRun}

namespace BetweenDelayed

theorem quiescent (h : BetweenDelayed set peer joins clients w) : w.Quiescent := by
  obtain ⟨due, h'⟩ := h.answers
  exact ⟨h'.signals, h.pooled.noBatch.dials, h.pooled.workers⟩

theorem stopped (h : BetweenDelayed set peer joins clients w) : w.stopped = false := by
  obtain ⟨due, h'⟩ := h.answers
  exact h'.stopped

theorem takeMessages (h : BetweenDelayed set peer joins clients w) :
    BetweenDelayed set peer joins clients w.takeMessages.2 := by
  obtain ⟨due, h'⟩ := h.answers
  exact ⟨h.pooled.takeMessages, ⟨due, h'.congr rfl rfl rfl rfl rfl (List.Subset.refl _) h'.workers
    (List.Subset.refl _)⟩, h.repliesLater⟩

theorem pause {p : Sweep} (h : BetweenDelayed set peer joins clients w) :
    ∃ w', Settles (fun fuel => pause set fuel s p w) w' ∧
      BetweenDelayed set peer joins clients w' := by
  obtain ⟨w', hpause, hsame⟩ := pause_quiescent (s := s) (p := p) h.quiescent
  obtain ⟨fuel, hok⟩ := hpause.exists_ok
  have hpooled := pause_pooled h.pooled hok
  obtain ⟨due, h'⟩ := h.answers
  refine ⟨w', hpause, hpooled, ⟨due, ?_⟩, ?_⟩
  · obtain rfl | ⟨t, rfl⟩ := hsame
    · exact h'
    · exact h'.tick t
  · obtain rfl | ⟨t, rfl⟩ := hsame <;> exact h.repliesLater

end BetweenDelayed

theorem PhaseRun.EachEchoes.pool_le (h : ph.EachEchoes s pool) (hpool : 0 < pool) :
    pool ≤ ph.summary.rounds ↔ s.phaseEnd ≠ .rounds 0 := by
  rw [h.total, Client.totalRounds_eq]
  constructor
  · intro hle hzero
    have hnone : (ph.back.map Client.rounds).sum = 0 := by
      refine List.sum_eq_zero fun x hx => ?_
      obtain ⟨c, hc, rfl⟩ := List.mem_map.1 hx
      have hrounds := (h.rounds c hc).not.2 (not_not_intro hzero)
      omega
    omega
  · intro hne
    have hle := List.card_nsmul_le_sum (ph.back.map Client.rounds) 1 fun x hx => by
      obtain ⟨c, hc, rfl⟩ := List.mem_map.1 hx
      exact (h.rounds c hc).2 hne
    rwa [List.length_map, h.back, smul_eq_mul, Nat.mul_one] at hle

/-! ## One phase -/

/-- The loops of a phase have just been started. None will fail, and each is to begin a round. -/
theorem BetweenDelayed.phaseStart_ready (h : BetweenDelayed set peer joins clients w)
    (hsize : size < Frame.lengthBound) :
    ∃ due, CountsRounds due ∧
      (phaseStart set s size clients w).Answering set.options peer due [] ∧
      (phaseStart set s size clients w).network.RepliesLater ∧
      (phaseStart set s size clients w).active = true ∧
      ∀ k ∈ (phaseStart set s size clients w).workers, k.stage = .ready := by
  obtain ⟨due, hanswers⟩ := h.answers
  obtain ⟨asked, hreset⟩ := hanswers.reset h.pooled.noBatch h.pooled.workers
  refine ⟨fun c => asked c.id + c.rounds, countsRounds_add asked, ?_, ?_, ?_, fun k hk => ?_⟩
  · refine World.Answering.spawnAll ?_ fun m hm => ?_
    · exact hreset.congr rfl rfl rfl rfl rfl (List.Subset.refl _) hreset.workers
        (List.Subset.refl _)
    · rwa [show m = size from hm]
  · rw [Sweep.phaseStart, World.spawnAll_eq]
    exact h.repliesLater
  · rw [Sweep.phaseStart, World.spawnAll_eq]
    exact congrArg Bool.not h.stopped
  · rw [Sweep.phaseStart, World.spawnAll_eq] at hk
    rcases List.mem_append.1 hk with hk | hk
    · rw [show w.takeMessages.2.workers = [] from h.pooled.workers] at hk
      cases hk
    · obtain ⟨c, -, rfl⟩ := List.mem_map.1 hk
      rfl

/-- **A phase** against honest peers that take their time comes to its end. -/
theorem phase_eachEchoes (h : BetweenDelayed set peer joins clients w)
    (hends : s.phaseEnd ≠ .duration 0)
    (hsize : size < Frame.lengthBound) :
    ∃ ph : PhaseRun, ph.Completes set s ∧ ph.before = w ∧ ph.size = size ∧ ph.clients = clients ∧
      ph.failure = none ∧ ph.summary.size = ph.size ∧ ph.EachEchoes s clients.length ∧
      BetweenDelayed set peer joins ph.back ph.after := by
  have hcrew : Pooled.Crew set.options { joins } (phaseStart set s size clients w) :=
    phaseStart_crew h.pooled rfl
  have hfailures : w.failures = [] := h.pooled.failures rfl
  obtain ⟨due, hdue, hstart, hdelays, hactive, hready⟩ := h.phaseStart_ready (s := s) hsize
  obtain ⟨w1, back, hjoin, h1, hrounds⟩ := World.joinAll_eachEchoes hdue hcrew.ledger.custody hstart
    hdelays (phaseStart_running h.pooled.workers hfailures) hcrew.noBatch.dials rfl
    PhaseEnd.rounds?_of_limit s.phaseEnd.bounded (fun _ => PhaseEnd.limit_pos hends) hready hactive
  let ph : PhaseRun := {
    before := w, after := { w1.cancel with sink := w1.sink.collect }, size, clients, back
    summary := {
      size, bytes := Client.totalBytes back, rounds := Client.totalRounds back
      samples := w1.sink.collect.messages.length, elapsed := w1.now - w.now }
    failure := none }
  have hphase : ph.Completes set s := hjoin.bind (.of_ok fun _ => rfl)
  obtain ⟨fuel, hok⟩ := hphase.exists_ok
  obtain ⟨⟨es, ht⟩, hworkers⟩ := phase_tally h.pooled.noBatch.dials h.pooled.workers hfailures hok
  have heach : ph.EachEchoes s clients.length := by
    refine ⟨ht.back_length hworkers, fun c hc => ⟨fun hone hzero => ?_, fun hne => ?_⟩, rfl⟩
    · have hle := (ht.clients c hc).2 0 (phasePlan_rounds size hzero)
      omega
    · exact hrounds (fun hzero => hne (PhaseEnd.rounds?_eq_some.1 hzero)) c hc
  have hpooled := phase_ledger (a := { joins }) h.pooled rfl hok
  have hafter : ph.after.Answering set.options peer due ph.back :=
    h1.congr rfl rfl rfl rfl rfl (List.Subset.refl _) h1.workers (List.Subset.refl _)
  have hkept := (World.repliesLater_kept set).anyPlan
  exact ⟨ph, hphase, rfl, rfl, rfl, rfl, rfl, heach,
    ⟨hpooled, ⟨due, hafter⟩, (phase_leaves hkept trivial h.repliesLater).ok hok⟩⟩

theorem betweenDelayed_invariant (peer : Nat → Peer) (joins pool : Nat)
    (hends : s.phaseEnd ≠ .duration 0) :
    PhaseInvariant set s
      (fun _ clients w => BetweenDelayed set peer joins clients w ∧ clients.length = pool)
      fun ph => ph.summary.size = ph.size ∧ ph.EachEchoes s pool where
  workers _ _ _ h := h.1.pooled.workers
  stopped _ _ _ h := h.1.stopped
  takeMessages _ _ _ h := ⟨h.1.takeMessages, h.2⟩
  pause i p w h := by
    obtain ⟨w', hpause, hw'⟩ := h.1.pause (s := s) (p := p)
    exact ⟨w', hpause, hw', h.2⟩
  phase i clients w size h hsize := by
    obtain ⟨h, rfl⟩ := h
    obtain ⟨ph, hphase, hbefore, hphsize, hclients, hnone, hsummary, heach, hafter⟩ :=
      phase_eachEchoes h hends hsize
    exact ⟨ph, hphase, hbefore, hphsize, hclients, hnone, hsummary, ⟨hsummary, heach⟩, hafter,
      heach.back⟩

/-! ## A whole sweep -/

/-- **A sweep** against honest peers that take their time comes to its end, with a complete pool and
without a failure. -/
theorem run_eachEchoes (set : Setting) (s : SweepSettings) (o : Output) {session : Session}
    (hw : session.world.Fresh) (hsignals : session.world.signals = [])
    (hstopped : session.world.stopped = false) (hends : s.phaseEnd ≠ .duration 0)
    (hsizes : ∀ size ∈ s.sizes, size < Frame.lengthBound) (hshake : set.options.HandshakeFits)
    (hpeers : ∀ i < s.clients, (session.world.network.peer i).Honest set.options)
    (hdelays : session.world.network.RepliesLater)
    (hjoins : (session.store.writable (o.path "join-lat" "csv")).isOk = true)
    (hthroughput : (session.store.writable (o.path "throughput" "csv")).isOk = true)
    (hmessages : ∀ size ∈ s.sizes,
      (session.store.writable (o.path s!"msg-lat-{size}" "csv")).isOk = true) :
    ∃ session' r phs, Settles (fun fuel => run set fuel s o session) (session', .ok r) ∧
      AllComplete set s session.world phs session'.world ∧ r.phases = phs.map PhaseRun.summary ∧
      r.pool = s.clients ∧ r.failure = none ∧
      phs.map (·.summary.size) = s.sizes ∧ ∀ ph ∈ phs, ph.EachEchoes s s.clients := by
  obtain ⟨session1, clients, joins, hestablish, hlen, -, hanswers, hputs⟩ :=
    Session.establish_ends s.batchSize hw hsignals hstopped hpeers hshake hjoins
  obtain ⟨fuel, hok⟩ := hestablish.exists_ok
  have hpooled := (Session.establish_ledger hw hok).1 clients joins rfl
  have hkept := (World.repliesLater_kept set).anyPlan
  have hdelays1 : session1.world.network.RepliesLater :=
    (Session.establish_keeps (C := fun _ => True) hkept (fun _ _ _ _ => trivial) hdelays hok).1
  obtain ⟨store, hstart⟩ := Store.write_total "" (hputs.writable hthroughput)
  have hwritable : ∀ path, (session.store.writable path).isOk = true →
      (store.writable path).isOk = true :=
    fun path h => (Store.write_puts hstart).writable (hputs.writable h)
  obtain ⟨session2, p, phs, hadvance, hcomplete, ⟨h2, hback⟩, hnone, hphases, hphs, hall⟩ :=
    (betweenDelayed_invariant _ joins s.clients hends).advance (o := o) (p := { clients }) (i := 0)
      { session1 with store } ⟨⟨hpooled, ⟨_, hanswers⟩, hdelays1⟩, hlen⟩ rfl hsizes
      (fun size hm => hwritable _ (hmessages size hm)) (hwritable _ hthroughput)
  obtain ⟨w, closed, hclose, -⟩ := h2.quiescent.closeAll set s.batchSize s.closePause p.clients
  have hbefore : session.world.Idle session1.world := Session.establish_idle hw.workers hok
  have hafter : session2.world.Idle w := by
    obtain ⟨fuel, hok⟩ := hclose.exists_ok
    exact World.closeAll_idle h2.pooled.workers hok
  refine ⟨_, _, phs, run_settles hestablish hstart hadvance hclose, hcomplete.between hbefore hafter,
    hphases, hback, hnone, ?_, fun ph hph => (hall ph hph).2⟩
  rw [← hphs]
  exact List.map_congr_left fun ph hph => (hall ph hph).1

end Sweep

namespace Config

theorem sweepSettings_phaseEnd_ne {c : Config} (h : c.Checked) :
    c.sweepSettings.phaseEnd ≠ .duration 0 := by
  unfold sweepSettings
  dsimp only
  cases hrounds : c.throughput.rounds with
  | some n => nofun
  | none =>
    have hpos : 0 < c.throughput.runTime := h.ends.resolve_left (not_not_intro hrounds)
    intro hzero
    injection hzero with hzero
    have : c.throughput.runTime * 1000000000 = 0 := hzero
    omega

theorem sweepSettings_phaseEnd_zero {c : Config} :
    c.sweepSettings.phaseEnd = .rounds 0 ↔ c.throughput.rounds = some 0 := by
  unfold sweepSettings
  dsimp only
  cases c.throughput.rounds with
  | none => exact iff_of_false nofun nofun
  | some n => simp

/-- **A sweep as configured** against honest peers, each of which takes a millisecond at least. Let
nothing interrupt it and let its output be writable. Then it reports, with a complete pool, without
a failure and with a phase for each size in order. Every client does a round in every phase, and the
phase so reports as many rounds as there are clients, just if the configuration does not ask for 0
rounds. -/
theorem every_phase_works {a : Arguments} {f : FileConfig} {c : Config} (h : merge a f = .ok c)
    (hmode : c.mode = .throughput) (env : Surroundings) (o : Output) (s : RunSummary)
    {session : Session} (hw : session.world.Fresh) (hsignals : session.world.signals = [])
    (hstopped : session.world.stopped = false) (hshake : c.clientOptions.HandshakeFits)
    (hpeers : ∀ i, (session.world.network.peer i).Honest c.clientOptions ∧
      Duration.ofMillis 1 ≤ (session.world.network.peer i).latency)
    (hjoins : (session.store.writable (o.path "join-lat" "csv")).isOk = true)
    (hthroughput : (session.store.writable (o.path "throughput" "csv")).isOk = true)
    (hmessages : ∀ size ∈ c.throughput.sizes,
      (session.store.writable (o.path s!"msg-lat-{size}" "csv")).isOk = true) :
    ∃ session' r phs,
      Settles (fun fuel => Run.workload env fuel c o s session) (session', s.ofSweep r, .ok ()) ∧
      Sweep.AllComplete (Run.setting env c) c.sweepSettings session.world phs session'.world ∧
      r.phases = phs.map Sweep.PhaseRun.summary ∧
      r.phases.map PhaseSummary.size = c.throughput.sizes ∧
      r.pool = c.throughput.clients ∧ r.failure = none ∧
      ∀ ph ∈ phs, ph.back.length = r.pool ∧
        (∀ k ∈ ph.back, (1 ≤ k.rounds ↔ c.throughput.rounds ≠ some 0)) ∧
        (r.pool ≤ ph.summary.rounds ↔ c.throughput.rounds ≠ some 0) := by
  obtain ⟨-, hchecked⟩ := merge_ok h
  have hdelays : session.world.network.RepliesLater := by
    refine ⟨fun n => Nat.lt_of_lt_of_le (by decide) (hpeers n).2, ?_⟩
    rw [hw.connections]
    exact List.forall_mem_nil _
  obtain ⟨session', r, phs, hrun, hcomplete, hphases, hpool, hnone, hlens, hall⟩ :=
    Sweep.run_eachEchoes (Run.setting env c) c.sweepSettings o hw hsignals hstopped
      (sweepSettings_phaseEnd_ne hchecked) hchecked.fits hshake (fun i _ => (hpeers i).1) hdelays
      hjoins hthroughput hmessages
  refine ⟨session', r, phs, ?_, hcomplete, hphases, ?_, hpool, hnone, fun ph hph => ?_⟩
  · unfold Run.workload
    rw [hmode]
    refine hrun.bind (.of_ok fun _ => ?_)
    simp only [RunSummary.conclude, RunSummary.poolResult, hnone]
    rfl
  · rw [hphases, List.map_map]
    exact hlens
  · have heach := hall ph hph
    have hzero := not_congr (sweepSettings_phaseEnd_zero (c := c))
    refine ⟨heach.back.trans hpool.symm, fun k hk => (heach.rounds k hk).trans hzero, ?_⟩
    rw [hpool]
    exact (heach.pool_le hchecked.clients).trans hzero

/-- No round is asked for and none is done. -/
theorem every_phase_works_zero :
    let env : Surroundings :=
      { resolver := { unknown := .fileNotFound }, source := SplitMix.source #[] 0 }
    let s : RunSummary :=
      { name := "r", mode := "throughput", server := "", startedAt := "", finishedAt := "" }
    ∃ c session' r,
      merge { mode := some .throughput, clients := some 1, batchSize := some 1, rounds := some 0 }
        { client := { handshake := false }, throughput := { sizes := [5] } } = .ok c ∧
      Settles (fun fuel => Run.workload env fuel c ⟨".", "r"⟩ s { world := {} })
        (session', s.ofSweep r, .ok ()) ∧
      r.pool = 1 ∧ r.phases.map PhaseSummary.size = [5] ∧ ∀ p ∈ r.phases, p.rounds = 0 := by
  intro env s
  let a : Arguments :=
    { mode := some .throughput, clients := some 1, batchSize := some 1, rounds := some 0 }
  let f : FileConfig := { client := { handshake := false }, throughput := { sizes := [5] } }
  have hc : merge a f = .ok (overlay a f) := by decide
  have hfresh : ({ world := {} } : Session).world.Fresh := ⟨rfl, rfl, rfl, rfl, rfl, rfl, rfl, rfl⟩
  have hpeers : ∀ i, (({} : Network).peer i).Honest (overlay a f).clientOptions ∧
      Duration.ofMillis 1 ≤ (({} : Network).peer i).latency := fun i =>
    ⟨⟨rfl, rfl, rfl, rfl, fun _ => rfl, rfl, nofun, nofun⟩, Nat.le_refl (Duration.ofMillis 1)⟩
  obtain ⟨session', r, phs, hrun, -, hphases, hsizes, hpool, -, hall⟩ :=
    every_phase_works hc rfl env ⟨".", "r"⟩ s hfresh rfl rfl nofun hpeers
      (by decide +kernel) (by decide +kernel) (by decide +kernel)
  have hpool : r.pool = 1 := hpool
  refine ⟨overlay a f, session', r, hc, hrun, hpool, hsizes, fun p hp => ?_⟩
  rw [hphases] at hp
  obtain ⟨ph, hph, rfl⟩ := List.mem_map.1 hp
  obtain ⟨-, -, hrounds⟩ := hall ph hph
  rw [hpool] at hrounds
  exact Nat.eq_zero_of_not_pos fun hpos => hrounds.1 hpos rfl

end Config

end EchoLoad
