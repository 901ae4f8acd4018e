import EchoLoad.Proofs.BeforeLoops
import EchoLoad.Proofs.Workload.Barrier
import EchoLoad.Proofs.Workload.Established
import EchoLoad.Random.SplitMix
import EchoLoad.Workload.Mixed
import EchoLoad.Workload.Sweep
/-!
A pool that could not be established. The first batch with a member that fails is waited for and is
the last one; whoever connected is closed, the join latencies are written, and the run fails before
its first round. Main statements: `growPool_fails`, `Session.establish_fails` and
`pool_failure_clean`.
-/

namespace EchoLoad

open World

variable {set : Setting} {fuel : Nat} {o : Output} {session : Session} {peer : Nat → Peer}

/-- Each attempt of the batch ends, and one of them with an error. -/
def Issue.Fails (o : ClientOptions) (peer : Nat → Peer) (x : Issue) : Prop :=
  (∀ n ∈ x.ids, (peer n).outcome? o ≠ none) ∧
    ∃ n ∈ x.ids, ∃ e, (peer n).outcome? o = some (some e)

namespace World

variable {target batch batches : Nat} {held : List Client} {w w' : World} {xs : List Issue}

/-! ## One batch -/

/-- Whoever was attempted while nothing failed has a peer that accepts. -/
theorem BeforeLoops.accepted (hw : w.BeforeLoops set.options peer) (hc : Custody set.options held w)
    (hd : w.dials = []) (hclean : w.failedAttempts = []) {n : Nat}
    (hn : n < w.network.connections.length) : (peer n).outcome? set.options = some none := by
  obtain ⟨-, ⟨hr, -⟩ | ⟨⟨e, he⟩, -⟩⟩ := (decided_of_lt hc hd hn).counts
  · exact hw.resolved n none (mem_fiber.1 hr).1
  · have hfailed := mem_failedAttempts.2 ⟨n, (mem_fiber.1 he).1⟩
    rw [hclean] at hfailed
    cases hfailed

/-- A batch of a pool is over: `x` was issued when the pool had the clients `held`, behind the
batches `xs`, and came out so. -/
structure BatchOver (o : ClientOptions) (peer : Nat → Peer) (held : List Client) (xs : List Issue)
    (x : Issue) (w : World) (out : BatchOutcome) : Prop where
  handshake : w.BeforeLoops o peer
  ledger : Ledger o { held := held ++ out.connected, refused := out.refusals } w
  noBatch : w.NoBatch
  issued : Issued (xs ++ [x]) w.events
  length : out.refusals = [] → w.network.connections.length = (held ++ out.connected).length
  refused : ∀ e ∈ out.refusals, ∃ n ∈ x.ids, .resolved n (some e) ∈ w.events
  accepted : out.refusals = [] → ∀ n ∈ x.ids, (peer n).outcome? o = some none

/-- **One batch of a pool.** If it fails then with an error of one of its members. -/
theorem BeforeLoops.batchOver (hw : w.BeforeLoops set.options peer)
    (hl : Ledger set.options { held } w)
    (hq : w.NoBatch) (hlen : w.network.connections.length = held.length)
    (hissued : Issued xs w.events) {size : Nat} {out : BatchOutcome} {seen : Option Failure}
    (hc : w.connectBatch set fuel held.length size false = .ok (w', out, seen)) :
    BatchOver set.options peer held xs ⟨w, held.length, size⟩ w' out := by
  have hissued' : Issued (xs ++ [⟨w, held.length, size⟩]) w'.events := by
    obtain ⟨w1, hw1, rfl, -⟩ := (connectBatch_waits (Issued.lasting set _).anyPlan fuel false
      (hissued.dialBatch set held.length size)).ok hc
    exact hw1
  rw [← hlen] at hc hissued' ⊢
  have hw' := hw.connectBatch hc
  obtain ⟨hl', hq', -, hmembers, hlen', hseen⟩ := connectBatch_ledger hl hq hc
  obtain ⟨rfl, -⟩ := hseen rfl
  have hattempts : w'.failedAttempts = out.refusals := hq'.failedAttempts_eq hl'
  refine ⟨hw', hl', hq', hissued', fun hr => ?_, fun e he => ?_, fun hr n hn => ?_⟩
  · rw [hlen', hlen, List.length_append, ← hmembers, hr]
    rfl
  · obtain ⟨n, hn⟩ := mem_failedAttempts.1 (hattempts ▸ he)
    have hlt : n < w'.network.connections.length := hl'.custody.client_lt hn
    refine ⟨n, List.mem_range'_1.2 ⟨Nat.le_of_not_lt fun hold => ?_, hlen' ▸ hlt⟩, hn⟩
    have haccepted := hw.accepted hl.custody hq.dials (hq.failedAttempts_eq hl) hold
    cases haccepted.symm.trans (hw'.resolved n _ hn)
  · exact hw'.accepted hl'.custody hq'.dials (hattempts.trans hr)
      (hlen' ▸ (List.mem_range'_1.1 hn).2)

/-! ## All batches -/

/-- **The batches of a pool taken apart**: there is none, or one and behind it those of the pool
that it leaves, if it came to an end without a failure. -/
theorem poolIssues_cases (set : Setting) (fuel target batch batches : Nat) (pool : PoolOutcome)
    (w : World) :
    let size := min (max batch 1) (target - pool.clients.length)
    poolIssues set fuel target batch (batches + 1) pool w = [] ∨
      ¬ target ≤ pool.clients.length ∧ w.stopped = false ∧
      ∃ later, poolIssues set fuel target batch (batches + 1) pool w =
          ⟨w, pool.clients.length, size⟩ :: later ∧
        (later = [] ∨ ∃ w' out seen,
          w.connectBatch set fuel pool.clients.length size false = .ok (w', out, seen) ∧
          out.refusals = [] ∧ later = poolIssues set fuel target batch batches
            { pool with clients := pool.clients ++ out.connected } w') := by
  rw [poolIssues]
  dsimp only
  split
  · exact .inl rfl
  next hroom =>
  split
  · exact .inl rfl
  next hstopped =>
  refine .inr ⟨hroom, Bool.eq_false_iff.2 hstopped, _, rfl, ?_⟩
  split
  · exact .inl rfl
  next w' out seen hc =>
  split
  · exact .inl rfl
  next hr => exact .inr ⟨w', out, seen, hc, hr, rfl⟩

/-- **A pool fails with a batch that fails.** It is the last one, and the failure is that of a
member. -/
theorem growPool_fails (batches : Nat) (pool : PoolOutcome) (hw : w.BeforeLoops set.options peer)
    (hl : Ledger set.options { held := pool.clients } w) (hq : w.NoBatch)
    (hlen : w.network.connections.length = pool.clients.length) (hissued : Issued xs w.events)
    (hfails : ∃ x ∈ poolIssues set fuel target batch batches pool w, x.Fails set.options peer) :
    ∃ w' pool' e, Settles (fun fuel => growPool set fuel target batch batches pool w) (w', pool') ∧
      pool'.failure = some e ∧ w'.BeforeLoops set.options peer ∧
      Issued (xs ++ poolIssues set fuel target batch batches pool w) w'.events ∧
      ∃ before x n, poolIssues set fuel target batch batches pool w = before ++ [x] ∧ n ∈ x.ids ∧
        .resolved n (some e) ∈ w'.events := by
  obtain ⟨x, hx, hends, m, hm, e, he⟩ := hfails
  induction batches generalizing pool w xs with
  | zero => cases hx
  | succ batches ih =>
    obtain hnone | ⟨hroom, hstopped, later, hissues, hlater⟩ :=
      poolIssues_cases set fuel target batch batches pool w
    · rw [hnone] at hx
      cases hx
    rw [hissues] at hx ⊢
    rcases List.mem_cons.1 hx with rfl | hx
    · obtain ⟨⟨w1, out, seen⟩, hsettles⟩ := hw.connectBatch_returns hq.dials _ (hlen ▸ hends)
      rw [hlen] at hsettles
      obtain ⟨enough, hc⟩ := hsettles.exists_ok
      have hover := hw.batchOver hl hq hlen hissued hc
      obtain ⟨e', rest, hrefusals⟩ := List.exists_cons_of_ne_nil fun hr =>
        absurd (he.symm.trans (hover.accepted hr m hm)) (by simp)
      obtain rfl : later = [] := by
        refine hlater.resolve_right ?_
        rintro ⟨w2, out2, seen2, hc2, hr, -⟩
        cases connectBatch_unique hsettles hc2
        rw [hrefusals] at hr
        cases hr
      obtain ⟨n, hn, he'⟩ := hover.refused e' (by simp [hrefusals])
      have hgrows : Settles (fun fuel => growPool set fuel target batch (batches + 1) pool w)
          (w1, { clients := pool.clients ++ out.connected, failure := some e' }) :=
        hsettles.follow (.of_ok fun _ => rfl) fun m hm =>
          growPool_refused hroom hstopped hm hrefusals
      exact ⟨w1, _, e', hgrows, rfl, hover.handshake, hover.issued, [], _, n, rfl, hn, he'⟩
    · obtain rfl | ⟨w1, out, seen, hc, hrefusals, rfl⟩ := hlater
      · cases hx
      have hover := hw.batchOver hl hq hlen hissued hc
      have hl1 := hover.ledger
      rw [hrefusals] at hl1
      obtain ⟨w', pool', e', hgrows, hfailure, hw', hissued', before, y, n, hlast, hn, he'⟩ :=
        ih { pool with clients := pool.clients ++ out.connected } hover.handshake hl1 hover.noBatch
          (hover.length hrefusals) hover.issued hx
      have hsettles : Settles (fun fuel => w.connectBatch set fuel pool.clients.length
          (min (max batch 1) (target - pool.clients.length)) false) (w1, out, seen) :=
        ⟨fuel, fun m hm => connectBatch_mono hm hc⟩
      refine ⟨w', pool', e', ?_, hfailure, hw', ?_, _ :: before, y, n, by rw [hlast]; rfl, hn, he'⟩
      · exact hsettles.follow hgrows fun m hm => growPool_goes_on hroom hstopped hm hrefusals
      · rwa [List.append_cons]

end World

/-! ## What is left of the run -/

/-- What a run leaves when its pool could not be established: the batches `xs` were issued, `count`
clients connected, and `e` is why the run failed. -/
structure PoolFailure (options : ClientOptions) (o : Output) (xs : List Issue)
    (session session' : Session) (count : Nat) (e : ClientError) : Prop where
  joins : session'.world.joins = count
  /-- So many of those attempted have a peer that accepts. -/
  accepting : session'.world.attempted.countP
    (fun n => (session.world.network.peer n).accepts options) = count
  /-- An attempt of the last batch failed with this error. -/
  error : ∃ before x n, xs = before ++ [x] ∧ n ∈ x.ids ∧
    .resolved n (some e) ∈ session'.world.events ∧
    (session.world.network.peer n).outcome? options = some (some e)
  /-- No other attempt was made than those of the batches. -/
  attempted : session'.world.attempted = xs.flatMap Issue.ids
  /-- Whoever connected was shut down, once. -/
  closed : ∀ n, session'.world.HasConnected n → ∃ conn,
    session'.world.network.connections[n]? = some conn ∧ conn.fate = .shutdown ∧
      session'.world.closings n = 1
  lines : o.Lines "join-lat" count session'.store
  onlyHandshake : ∀ conn ∈ session'.world.network.connections, conn.OnlyHandshake options
  rounds : ∀ e ∈ session'.world.events, e.isRound = false
  /-- No other file was written than that of the join latencies. -/
  files : ∀ l, session.store.locate (o.path "join-lat" "csv") ≠ .ok l →
    session'.store.find? l = session.store.find? l
  printed : session'.printed = session.printed

theorem World.closeBatch_joins (clients : List Client) (w : World) :
    (w.closeBatch clients).1.joins = w.joins := by
  have hnone : (closings? clients).reverse.countP Event.isJoin = 0 := by
    refine List.countP_eq_zero.2 fun e he => ?_
    obtain ⟨c, -, rfl⟩ := List.mem_map.1 (List.mem_reverse.1 he)
    exact Bool.false_ne_true
  rw [joins, closeBatch_events, List.countP_append, hnone, Nat.zero_add, joins]

theorem Series.attempted {p : Issue → Prop} {xs : List Issue} {w : World} (h : Series p 0 xs)
    (hissued : Issued xs w.events) : w.attempted = List.range w.attempts := by
  have hids := hissued.attempted.trans h.ids
  have hlen := congrArg List.length hids
  rw [World.length_attempted, List.length_range'] at hlen
  rw [hids, ← hlen, List.range_eq_range']

namespace Session

variable {clients batch : Nat} {l : Location}

/-- When a batch has failed the clients of the pool are closed and the join latencies written. -/
theorem establish_closes (hl : session.store.writable (o.path "join-lat" "csv") = .ok l) {w : World}
    {pool : PoolOutcome} {e : ClientError} (hfailure : pool.failure = some e) :
    ∃ c, ∀ fuel, session.world.establishPool set fuel clients batch = .ok (w, pool) →
      session.establish set fuel clients batch o =
        .ok ({ session with world := (w.closeBatch pool.clients).1.takeJoins.2
                            store := session.store.put l (.file c) },
          .error (.pool pool.clients.length e)) := by
  let closed := (w.closeBatch pool.clients).1
  obtain ⟨c, hwrite⟩ :=
    writeSeries_ok (s := { session with world := closed.takeJoins.2 }) closed.takeJoins.1 hl
  refine ⟨c, fun fuel hgrow => ?_⟩
  simp only [establish, hgrow, hfailure, closeAll_zero, bind, Except.bind]
  rw [hwrite]
  rfl

/-- **A pool with a batch that fails is not established**, if the join latencies can be written. -/
theorem establish_fails (hw : session.world.Fresh)
    (hl : session.store.writable (o.path "join-lat" "csv") = .ok l)
    (hfails : ∃ x ∈ poolIssues set fuel clients batch clients {} session.world,
      x.Fails set.options session.world.network.peer) :
    ∃ session' count e,
      Settles (fun fuel => session.establish set fuel clients batch o)
        (session', .error (.pool count e)) ∧
      PoolFailure set.options o (poolIssues set fuel clients batch clients {} session.world)
        session session' count e := by
  have hstart : Issued [] session.world.events := by
    rw [show session.world.events = [] from congrArg (List.map Prod.snd) hw.journal]
    exact .start
  have hempty : Ledger set.options { held := ({} : PoolOutcome).clients } session.world :=
    .of_fresh hw
  have hlen : session.world.network.connections.length = ({} : PoolOutcome).clients.length :=
    congrArg List.length hw.connections
  have hseries : Series AllConnected 0
      (poolIssues set fuel clients batch clients {} session.world) :=
    growPool_series clients {} hempty hw.noBatch hlen
  obtain ⟨w1, pool, e, hgrows, hfailure, hw1, hissued, herror⟩ :=
    growPool_fails clients {} hw.handshake hempty hw.noBatch hlen hstart hfails
  generalize poolIssues set fuel clients batch clients {} session.world = xs at *
  obtain ⟨c, hclose⟩ := establish_closes (o := o) hl (w := w1) hfailure
  let session' : Session := { session with
    world := (w1.closeBatch pool.clients).1.takeJoins.2, store := session.store.put l (.file c) }
  have hrun : Settles (fun fuel => session.establish set fuel clients batch o)
      (session', .error (.pool pool.clients.length e)) :=
    hgrows.follow (.of_ok fun _ => rfl) hclose
  obtain ⟨fuel', hgrow⟩ := hgrows.exists_ok
  obtain ⟨refused, hl1, -⟩ := growPool_ledger hempty hw.noBatch hlen rfl hgrow
  have hsamples : w1.joinSamples = pool.clients.length :=
    growPool_joins hw.connected (by rw [joinSamples, hw.sink]; rfl) hgrow
  obtain ⟨fuel'', hok⟩ := hrun.exists_ok
  cases (establish_ledger hw hok).2 _ rfl with | closed hsettled hfailed =>
  have hhandshake : session'.world.BeforeLoops set.options session.world.network.peer :=
    (hw1.closeBatch pool.clients).congr rfl rfl rfl fun _ hd => hd
  have hissued' : Issued ([] ++ xs) session'.world.events :=
    closeBatch_keeps (P := fun w => Issued ([] ++ xs) w.events) (fun _ c h => h.close c) _ hissued
  have hjoins : session'.world.joins = pool.clients.length := by
    refine (closeBatch_joins pool.clients w1).trans (hl1.joins.trans ?_)
    rw [Nat.zero_add]
    exact hsamples
  have hresolved : ∀ n failure, .resolved n failure ∈ session'.world.events →
      (failure = none ↔ (session.world.network.peer n).accepts set.options = true) := by
    intro n failure he
    rw [Peer.accepts_iff, hhandshake.resolved n failure he]
    exact Option.some_inj.symm
  obtain ⟨hattempts, hcensus, -⟩ :=
    census_of_resolved hsettled.ledger.custody hsettled.noBatch.dials hresolved
  refine ⟨session', _, e, hrun, hjoins, ?_, ?_, hissued'.attempted, ?_, ?_, hhandshake.connections,
    hhandshake.rounds, fun l' hl' => ?_, rfl⟩
  · rw [hseries.attempted hissued', hattempts, ← hcensus, hjoins]
  · obtain ⟨before, x, n, hlast, hn, he⟩ := herror
    have he' : .resolved n (some e) ∈ session'.world.events := by
      rw [show session'.world.events = _ from closeBatch_events pool.clients w1]
      exact List.mem_append_right _ he
    exact ⟨before, x, n, hlast, hn, he', hhandshake.resolved n _ he'⟩
  · intro n hn
    refine hsettled.clean hn fun hf => ?_
    obtain ⟨x, hx⟩ := hasFailed_iff.1 hf
    cases hhandshake.rounds _ (mem_fiber.1 hx).1
  · exact establish_holds hw hok
  · obtain ⟨-, -, hlocate, -⟩ := Store.writable_ok.1 hl
    exact Store.find?_put _ fun he => hl' (he ▸ hlocate)

end Session

/-- **A pool that cannot be established is fatal, and leaves nothing behind.** Let a batch be issued
that fails, whatever interrupts arrive, and let the file of the join latencies be writable. Then a
sweep and a mixed run end alike, with the number of clients that connected and the error of an
attempt of the last batch. No other attempt is made than those of the batches, every client that
connected is shut down, each of them has its join latency, nothing but handshakes is sent, and no
other file is written. -/
theorem pool_failure_clean (set : Setting) (fuel : Nat) (o : Output) (session : Session)
    (clients batch : Nat) (hw : session.world.Fresh)
    (hjoins : (session.store.writable (o.path "join-lat" "csv")).isOk = true)
    (hfails : ∃ x ∈ poolIssues set fuel clients batch clients {} session.world,
      x.Fails set.options session.world.network.peer) :
    ∃ session' count e,
      PoolFailure set.options o (poolIssues set fuel clients batch clients {} session.world)
        session session' count e ∧
      (∀ s : SweepSettings, s.clients = clients → s.batchSize = batch →
        Settles (fun fuel => Sweep.run set fuel s o session) (session', .error (.pool count e))) ∧
      ∀ s : MixedSettings, s.clients = clients → s.batchSize = batch →
        Settles (fun fuel => Mixed.run set fuel s o session)
          (session', .error (.pool count e)) := by
  cases hl : session.store.writable (o.path "join-lat" "csv") with
  | error e =>
    rw [hl] at hjoins
    cases hjoins
  | ok l =>
    obtain ⟨session', count, e, hestablish, hfailure⟩ := Session.establish_fails hw hl hfails
    refine ⟨session', count, e, hfailure, ?_, ?_⟩
    · rintro s rfl rfl
      exact hestablish.bind (.of_ok fun _ => rfl)
    · rintro s rfl rfl
      exact hestablish.bind (.of_ok fun _ => rfl)

/-- Batches of two for a pool of three: the second client is refused, and no third is attempted. -/
theorem pool_failure_clean_refused :
    ∃ session' e,
      Settles (fun fuel => Sweep.run { source := SplitMix.source #[] 0 } fuel
        { clients := 3, batchSize := 2, sizes := [5], phaseEnd := .rounds 1 } ⟨".", "r"⟩
        { world := { network := { peers := [{}, { refuse := some .writeZero }] } } })
        (session', .error (.pool 1 e)) ∧
      Settles (fun fuel => Mixed.run { source := SplitMix.source #[] 0 } fuel
        { clients := 3, batchSize := 2, payload := .fixed 5, maxRounds := 1 } ⟨".", "r"⟩
        { world := { network := { peers := [{}, { refuse := some .writeZero }] } } })
        (session', .error (.pool 1 e)) ∧
      session'.world.attempted = [0, 1] ∧ session'.world.joins = 1 ∧
      Output.Lines ⟨".", "r"⟩ "join-lat" 1 session'.store := by
  let session : Session :=
    { world := { network := { peers := [{}, { refuse := some .writeZero }] } } }
  have hfresh : session.world.Fresh := ⟨rfl, rfl, rfl, rfl, rfl, rfl, rfl, rfl⟩
  have hissues : poolIssues { source := SplitMix.source #[] 0 } 0 3 2 3 {} session.world =
      [⟨session.world, 0, 2⟩] := rfl
  obtain ⟨session', count, e, hfailure, hsweep, hmixed⟩ :=
    pool_failure_clean { source := SplitMix.source #[] 0 } 0 ⟨".", "r"⟩ session 3 2 hfresh
      (by decide +kernel) (by
        rw [hissues]
        exact ⟨_, List.mem_singleton_self _, by decide, 1, by decide, _, rfl⟩)
  have hattempted : session'.world.attempted = [0, 1] :=
    hfailure.attempted.trans (by rw [hissues]; rfl)
  have hcount : count = 1 := by
    rw [← hfailure.accepting, hattempted]
    rfl
  subst hcount
  exact ⟨session', e, hsweep _ rfl rfl, hmixed _ rfl rfl, hattempted, hfailure.joins,
    hfailure.lines⟩

/-- **An attempt that never ends keeps the run waiting**: the first client is refused, but the
second one of its batch is never answered, and neither workload comes to a result. -/
theorem pool_failure_waits :
    let session : Session := { world := { network := {
      peers := [{ refuse := some .writeZero }, { never := true }] } } }
    let set : Setting := { source := SplitMix.source #[] 0 }
    let o : Output := ⟨".", "r"⟩
    (session.store.writable (o.path "join-lat" "csv")).isOk = true ∧
    (∃ x ∈ poolIssues set 0 2 2 2 {} session.world, ∃ n ∈ x.ids, ∃ e,
      (session.world.network.peer n).outcome? set.options = some (some e)) ∧
    ∀ fuel,
      (Sweep.run set fuel { clients := 2, batchSize := 2, sizes := [5], phaseEnd := .rounds 1 } o
        session).toOption.isNone = true ∧
      (Mixed.run set fuel { clients := 2, batchSize := 2, payload := .fixed 5, maxRounds := 1 } o
        session).toOption.isNone = true := by
  intro session set o
  refine ⟨by decide +kernel, ⟨_, List.mem_singleton_self _, 0, by decide, _, rfl⟩, fun fuel => ?_⟩
  match fuel with
  | 0 => exact ⟨rfl, rfl⟩
  | 1 => exact ⟨rfl, rfl⟩
  | fuel + 2 => exact ⟨rfl, rfl⟩

end EchoLoad
