import EchoLoad.Proofs.Idle
import EchoLoad.Proofs.Tally
import EchoLoad.Proofs.Workload.Sweep
import EchoLoad.Random.SplitMix
/-!
A sweep taken apart into its phases. Between two phases no loop runs, and what a phase reports is
what happened in it. Main statements: `turn_ok` and `run_ok`, which say all that a turn and a
sweep with a report have done, and `phase_accounts`.
-/

namespace EchoLoad.Sweep

/-- One phase of a sweep, with the worlds in which it began and ended. -/
structure PhaseRun where
  before : World
  after : World
  size : Nat
  clients : List Client
  back : List Client
  summary : PhaseSummary
  failure : Option Failure

/-- The phase went so. -/
def PhaseRun.Valid (set : Setting) (fuel : Nat) (s : SweepSettings) (ph : PhaseRun) : Prop :=
  phase set fuel s ph.size ph.clients ph.before =
    .ok (ph.after, ph.back, ph.summary, ph.failure)

/-- The way from one world to another through some phases. No loop runs before, between and after
them. -/
inductive PhaseSequence (set : Setting) (fuel : Nat) (s : SweepSettings) :
    World → List PhaseRun → World → Prop
  | rest {w w' : World} : w.Idle w' → PhaseSequence set fuel s w [] w'
  | phase {w w' : World} {ph : PhaseRun} {phs : List PhaseRun} : w.Idle ph.before →
      ph.Valid set fuel s →
      PhaseSequence set fuel s ph.after phs w' → PhaseSequence set fuel s w (ph :: phs) w'

variable {set : Setting} {fuel : Nat} {s : SweepSettings} {o : Output}

namespace PhaseSequence

variable {w w' w'' : World} {phs : List PhaseRun}

theorem after_idle (h : w.Idle w') (hc : PhaseSequence set fuel s w' phs w'') :
    PhaseSequence set fuel s w phs w'' := by
  cases hc with
  | rest h' => exact .rest (h.trans h')
  | phase h' hruns hrest => exact .phase (h.trans h') hruns hrest

theorem workers (hc : PhaseSequence set fuel s w phs w') : w'.workers = [] := by
  induction hc with
  | rest h => exact h.workers
  | phase _ _ _ ih => exact ih

theorem then_idle (hc : PhaseSequence set fuel s w phs w') (h : w'.Idle w'') :
    PhaseSequence set fuel s w phs w'' := by
  induction hc with
  | rest h' => exact .rest (h'.trans h)
  | phase h' hruns _ ih => exact .phase h' hruns (ih h)

end PhaseSequence

/-! ## One phase -/

theorem phase_numbers {size : Nat} {clients clients' : List Client} {w w' : World}
    {p : PhaseSummary} {failure : Option Failure}
    (h : phase set fuel s size clients w = .ok (w', clients', p, failure)) :
    p.size = size ∧ p.bytes = Client.totalBytes clients' ∧
      p.rounds = Client.totalRounds clients' ∧ p.samples = w'.sink.collect.messages.length := by
  obtain ⟨⟨w1, clients1, failure1⟩, hj, he⟩ := bind_eq_ok.1 h
  cases he
  have hsink : w1.sink.collect.collect.messages = w1.sink.collect.messages := List.append_nil _
  exact ⟨rfl, rfl, rfl, congrArg List.length hsink.symm⟩

theorem phaseStart_running {size : Nat} {clients : List Client} {w : World} (hworkers : w.workers = [])
    (hfailures : w.failures = []) :
    Tally.Running (phasePlan s size) size clients.length w [] [] (phaseStart set s size clients w) :=
  Tally.Running.start set _ size clients rfl rfl hworkers hfailures rfl rfl

/-- **One phase taken apart.** Its tally is complete when its clients are back. -/
theorem phase_tally {size : Nat} {clients clients' : List Client} {w w' : World}
    {p : PhaseSummary} {failure : Option Failure} (hdials : w.dials = [])
    (hworkers : w.workers = []) (hfailures : w.failures = [])
    (h : phase set fuel s size clients w = .ok (w', clients', p, failure)) :
    (∃ es, Tally (phasePlan s size) size clients.length w clients' es w') ∧ w'.workers = [] := by
  obtain ⟨⟨w1, clients1, failure1⟩, hj, he⟩ := bind_eq_ok.1 h
  cases he
  have hquiet : (phaseStart set s size clients w).dials = [] := by
    rw [phaseStart, World.spawnAll_eq]
    exact hdials
  obtain ⟨es, ht, hw1, -⟩ :=
    World.joinAll_tally (phaseStart_running hworkers hfailures) rfl PhaseEnd.rounds?_of_limit hquiet hj
  have hsink : w1.sink.collect.collect.messages = w1.sink.collect.messages := List.append_nil _
  exact ⟨⟨es, ht.congr (List.Perm.refl _) rfl rfl rfl rfl hsink⟩, hw1⟩

/-! ## A turn and a sweep -/

/-- **All that a turn has done** if no file failed: a pause, and then a phase that was written
down, unless the stop latch was set. -/
theorem turn_ok {size : Nat} {p p' : Sweep} {session session' : Session} {more : Bool}
    (h : turn set fuel s o size p session = .ok (session', .ok (p', more))) :
    ∃ w, pause set fuel s p session.world = .ok w ∧
      ((w.stopped = true ∧ session' = { session with world := w } ∧ p' = p ∧ more = false) ∨
        ∃ ph : PhaseRun, ph.before = w ∧ ph.size = size ∧ ph.clients = p.clients ∧
          ph.Valid set fuel s ∧ w.stopped = false ∧
          record o ph.summary { session with world := ph.after } = (session', .ok ()) ∧
          p' = ⟨ph.back, p.phases ++ [ph.summary], ph.failure.map (·.error)⟩ ∧
          more = ph.failure.isNone) := by
  obtain ⟨w, hpause, h⟩ := bind_eq_ok.1 h
  refine ⟨w, hpause, ?_⟩
  dsimp only at h
  split at h
  · next hstopped =>
    cases h
    exact .inl ⟨hstopped, rfl, rfl, rfl⟩
  · next hstopped =>
    obtain ⟨⟨w1, clients, summary, failure⟩, hphase, h⟩ := bind_eq_ok.1 h
    dsimp only at h
    split at h
    · cases h
    · next session1 hrecord =>
      cases h
      exact .inr ⟨⟨w, w1, size, p.clients, clients, summary, failure⟩, rfl, rfl, rfl, hphase,
        by simpa using hstopped, hrecord, rfl, rfl⟩

/-- **All that a sweep with a report has done.** -/
theorem run_ok {session session' : Session} {r : SweepReport}
    (h : run set fuel s o session = .ok (session', .ok r)) :
    ∃ session1 clients joins store session2 p w n,
      session.establish set fuel s.clients s.batchSize o = .ok (session1, .ok (clients, joins)) ∧
      o.startThroughput session1.store = .ok store ∧
      advance set fuel s o s.sizes { clients } { session1 with store } = .ok (session2, .ok p) ∧
      session2.world.closeAll set fuel s.batchSize s.closePause p.clients = .ok (w, n) ∧
      session' = { session2 with world := w } ∧
      r = { pool := p.clients.length, joinSamples := joins, phases := p.phases
            failure := p.failure, interrupted := w.stopped } := by
  obtain ⟨⟨session1, established⟩, hestablish, h⟩ := bind_eq_ok.1 h
  dsimp only at h
  split at h
  · cases h
  · next session1 clients joins hpool =>
    cases hpool
    split at h
    · cases h
    · next store hstore =>
      obtain ⟨⟨session2, advanced⟩, hadvance, h⟩ := bind_eq_ok.1 h
      split at h
      · cases h
      · next session2 p hadvanced =>
        cases hadvanced
        obtain ⟨⟨w, n⟩, hclose, h⟩ := bind_eq_ok.1 h
        cases h
        exact ⟨session1, clients, joins, store, session2, p, w, n, hestablish, hstore, hadvance,
          hclose, rfl, rfl⟩

theorem run_attempts {session session' : Session} {r : SweepReport} (hw : session.world.Fresh)
    (h : run set fuel s o session = .ok (session', .ok r)) : session'.world.failedAttempts = [] := by
  obtain ⟨session1, clients, joins, store, session2, p, w, n, hestablish, -, hadvance, hclose, rfl,
    -⟩ := run_ok h
  let begun : Session := { session1 with store }
  have hpool : Pooled set.options { held := clients, joins } begun.world :=
    (Session.establish_ledger hw hestablish).1 clients joins rfl
  obtain ⟨a, hback, hheld, -⟩ := (advance_ledger hpool ⟨rfl, rfl⟩ rfl hadvance).1 p rfl
  exact hback.settle_attempts (hheld ▸ hclose)

/-! ## The phases of a sweep -/

theorem pause_idle {p : Sweep} {w w' : World} (hw : w.workers = [])
    (h : pause set fuel s p w = .ok w') : w.Idle w' := by
  unfold pause at h
  split at h
  · cases h
    exact .refl hw
  · exact World.sleep_idle hw h

/-- A phase begins with a pool of which nobody runs and nobody has failed. -/
structure PhaseRun.StartsIdle (pool : Nat) (signals : List (Duration × Signal)) (ph : PhaseRun) :
    Prop where
  dials : ph.before.dials = []
  workers : ph.before.workers = []
  failures : ph.before.failures = []
  clients : ph.clients.length = pool
  signals : ph.before.signals <:+ signals

theorem PhaseRun.StartsIdle.mono {pool pool' : Nat} {signals signals' : List (Duration × Signal)}
    {ph : PhaseRun}
    (h : ph.StartsIdle pool signals) (hpool : pool = pool') (hsignals : signals <:+ signals') :
    ph.StartsIdle pool' signals' :=
  ⟨h.dials, h.workers, h.failures, h.clients.trans hpool, h.signals.trans hsignals⟩

/-- **What a phase reports is what happened in it.** -/
theorem PhaseRun.StartsIdle.accounts {pool : Nat} {signals : List (Duration × Signal)} {ph : PhaseRun}
    (h : ph.StartsIdle pool signals) (hruns : ph.Valid set fuel s) :
    ph.after.workers = [] ∧ ph.after.signals <:+ signals ∧ ph.back.length = pool ∧
      ∃ es, ph.after.events = es ++ ph.before.events ∧
        ph.summary.rounds = es.countP Event.isEcho ∧
        ph.summary.bytes = ph.summary.rounds * Frame.size ph.summary.size ∧
        ph.summary.samples = ph.summary.rounds ∧
        ∀ n, s.phaseEnd = .rounds n → ph.summary.rounds ≤ n * pool ∧
          ((∀ e ∈ es, e.failedRound? = none) → ph.after.stopped = false →
            (∀ x ∈ signals, x.2 ≠ .cancel) → ph.summary.rounds = n * pool) := by
  obtain ⟨⟨es, ht⟩, hw⟩ := phase_tally h.dials h.workers h.failures hruns
  obtain ⟨hsize, hbytes, hrounds, hsamples⟩ := phase_numbers hruns
  rw [h.clients] at ht
  obtain ⟨hechoes, htotal, hbudget⟩ := ht.totals hw
  refine ⟨hw, ht.signals.trans h.signals, ht.back_length hw, es, ht.events, ?_, ?_, ?_,
    fun n hn => ?_⟩
  · rw [hrounds, hechoes]
  · rw [hbytes, htotal, hrounds, hsize]
  · rw [hsamples, ht.samples, hechoes, hrounds]
  · obtain ⟨hle, heq⟩ := hbudget n (phasePlan_rounds ph.size hn)
    rw [hrounds]
    refine ⟨hle, fun hclean hstopped hcancel => heq ⟨hclean, hstopped, fun x hx => ?_⟩⟩
    exact hcancel x (h.signals.subset hx)

/-- **The phase of a turn**, if it has one. -/
theorem turn_phaseRun {size : Nat} {a : Account} {p p' : Sweep} {more : Bool}
    {session session' : Session} (h : Pooled set.options a session.world) (hr : a.received = [])
    (ht : turn set fuel s o size p session = .ok (session', .ok (p', more))) :
    (session.world.Idle session'.world ∧ p' = p ∧ more = false) ∨
      ∃ ph : PhaseRun, session.world.Idle ph.before ∧ ph.Valid set fuel s ∧
        ph.after.Idle session'.world ∧ p'.phases = p.phases ++ [ph.summary] ∧
        p'.clients.length = p.clients.length ∧
        ph.StartsIdle p.clients.length session.world.signals ∧
        session'.world.signals <:+ session.world.signals := by
  obtain ⟨w, hpause, hcase⟩ := turn_ok ht
  have hpooled := pause_pooled h hpause
  have hidle := pause_idle h.workers hpause
  rcases hcase with ⟨-, rfl, rfl, rfl⟩ |
    ⟨ph, rfl, rfl, hclients, hruns, -, hrecord, rfl, rfl⟩
  · exact .inl ⟨hidle, rfl, rfl⟩
  · have hbegins : ph.StartsIdle p.clients.length session.world.signals :=
      ⟨hpooled.noBatch.dials, hpooled.workers, hpooled.failures hr, congrArg _ hclients,
        hidle.signals⟩
    obtain ⟨hw, hsignals, hback, -⟩ := hbegins.accounts hruns
    have hworld : session'.world = ph.after.takeMessages.2 := by
      have hrecorded := record_world o ph.summary { session with world := ph.after }
      rwa [hrecord] at hrecorded
    rw [hworld]
    exact .inr ⟨ph, hidle, hruns, .of_eq rfl rfl hw, rfl, hback, hbegins, hsignals⟩

theorem advance_phaseSequence {sizes : List Nat} {a : Account} {p p' : Sweep}
    {session session' : Session} (h : Pooled set.options a session.world) (hk : RecordsFailure a p)
    (hr : a.received = [])
    (hp : advance set fuel s o sizes p session = .ok (session', .ok p')) :
    ∃ phs, PhaseSequence set fuel s session.world phs session'.world ∧
      p'.phases = p.phases ++ phs.map PhaseRun.summary ∧ p'.clients.length = p.clients.length ∧
      ∀ ph ∈ phs, ph.StartsIdle p.clients.length session.world.signals ∧ ph.Valid set fuel s := by
  induction sizes generalizing a p session with
  | nil =>
    cases hp
    exact ⟨[], .rest (.refl h.workers), by simp, rfl, by simp⟩
  | cons size sizes ih =>
    unfold advance at hp
    split at hp
    · cases hp
    · cases hp
    · next session1 p1 ht =>
      cases hp
      rcases turn_phaseRun h hr ht with ⟨hidle, rfl, -⟩ |
        ⟨ph, hbefore, hruns, hafter, hphases, hlen, hb, -⟩
      · exact ⟨[], .rest hidle, by simp, rfl, by simp⟩
      · exact ⟨[ph], .phase hbefore hruns (.rest hafter), hphases, hlen, by simpa using ⟨hb, hruns⟩⟩
    · next session1 p1 ht =>
      obtain ⟨a', h1, hk1, hr1⟩ := (turn_ledger h hk hr ht).1 _ _ rfl
      rcases turn_phaseRun h hr ht with ⟨-, -, hmore⟩ |
        ⟨ph, hbefore, hruns, hafter, hphases, hlen, hb, hsignals⟩
      · cases hmore
      obtain ⟨phs, hseq, hrest, hlen', hphs⟩ := ih h1 hk1 (hr1 rfl) hp
      refine ⟨ph :: phs, .phase hbefore hruns (hseq.after_idle hafter), ?_, hlen'.trans hlen, ?_⟩
      · rw [hrest, hphases, List.append_assoc]
        rfl
      · intro x hx
        rcases List.mem_cons.1 hx with rfl | hx
        · exact ⟨hb, hruns⟩
        · obtain ⟨hbx, hrx⟩ := hphs x hx
          exact ⟨hbx.mono hlen hsignals, hrx⟩

/-- **The accounts of a sweep.** The run goes from phase to phase, and no round begins or ends
between them. What a phase reports is what happened in it: its rounds are those echoed from its
beginning to its end, and bytes and samples agree with them. With a fixed number of rounds it does
no more than that number for each client, and all of them if no round failed in it and no interrupt
was latched. A bare cancellation, which is no interrupt, would end it without a trace. -/
theorem phase_accounts {session session' : Session} {r : SweepReport} (hw : session.world.Fresh)
    (h : run set fuel s o session = .ok (session', .ok r)) :
    ∃ phs, PhaseSequence set fuel s session.world phs session'.world ∧
      r.phases = phs.map PhaseRun.summary ∧
      ∀ ph ∈ phs, ∃ es, ph.after.events = es ++ ph.before.events ∧
        ph.summary.rounds = es.countP Event.isEcho ∧
        ph.summary.bytes = ph.summary.rounds * Frame.size ph.summary.size ∧
        ph.summary.samples = ph.summary.rounds ∧
        ∀ n, s.phaseEnd = .rounds n → ph.summary.rounds ≤ n * r.pool ∧
          ((∀ e ∈ es, e.failedRound? = none) → ph.after.stopped = false →
            (∀ x ∈ session.world.signals, x.2 ≠ .cancel) → ph.summary.rounds = n * r.pool) := by
  obtain ⟨session1, clients, joins, store, session2, p, w, n, hestablish, -, hadvance, hclose, rfl,
    rfl⟩ := run_ok h
  let begun : Session := { session1 with store }
  have hpool : Pooled set.options { held := clients, joins } begun.world :=
    (Session.establish_ledger hw hestablish).1 clients joins rfl
  obtain ⟨phs, hseq, hphases, hlen, hphs⟩ :=
    advance_phaseSequence hpool ⟨rfl, rfl⟩ rfl hadvance
  have hbefore : session.world.Idle session1.world := Session.establish_idle hw.workers hestablish
  have hafter : session2.world.Idle w := World.closeAll_idle hseq.workers hclose
  refine ⟨phs, (hseq.after_idle hbefore).then_idle hafter, hphases, fun ph hph => ?_⟩
  obtain ⟨hbegins, hruns⟩ := hphs ph hph
  exact ((hbegins.mono hlen.symm hbefore.signals).accounts hruns).2.2.2

/-- A client is to do two rounds in each of two phases. The last one is not echoed, so the second
phase reports one round. -/
theorem phase_accounts_hangup :
    ∃ session' r, ∃ phs : List PhaseRun, run { source := SplitMix.source #[] 0 } 40
        { clients := 1, batchSize := 1, sizes := [0, 0], phaseEnd := .rounds 2 } ⟨".", "r"⟩
        { world := { network := { rest := { replies := [.echo, .echo, .echo, .hangup] } } } }
        = .ok (session', .ok r) ∧
      r.phases = phs.map PhaseRun.summary ∧
      r.phases.map (fun p => (p.rounds, p.bytes, p.samples)) = [(2, 8, 2), (1, 4, 1)] ∧
      r.failure.isSome = true := by
  have hrun : ((run { source := SplitMix.source #[] 0 } 40
      { clients := 1, batchSize := 1, sizes := [0, 0], phaseEnd := .rounds 2 } ⟨".", "r"⟩
      { world := { network := { rest :=
        { replies := [.echo, .echo, .echo, .hangup] } } } }).toOption.any fun x =>
          x.2.toOption.any fun r =>
            r.phases.map (fun p => (p.rounds, p.bytes, p.samples)) = [(2, 8, 2), (1, 4, 1)] ∧
            r.failure.isSome = true) = true := by
    decide +kernel
  obtain ⟨⟨session', result⟩, h, hresult⟩ := toOption_any.1 hrun
  obtain ⟨r, rfl, hphases⟩ := toOption_any.1 hresult
  have hfresh : ({ network := { rest :=
      { replies := [.echo, .echo, .echo, .hangup] } } } : World).Fresh :=
    ⟨rfl, rfl, rfl, rfl, rfl, rfl, rfl, rfl⟩
  obtain ⟨phs, -, hphs, -⟩ := phase_accounts hfresh h
  exact ⟨session', r, phs, h, hphs, (of_decide_eq_true hphases).1, (of_decide_eq_true hphases).2⟩

end EchoLoad.Sweep
