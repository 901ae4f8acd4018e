import EchoLoad.Proofs.Faithful.Echo
import EchoLoad.Proofs.Store
import EchoLoad.Proofs.Workload.CleanGrowth
import EchoLoad.Random.SplitMix
/-!
The first failure decides a ramp. If every attempt ends, whoever connects is echoed, nothing
interrupts the run and the output can be written, then the end of a ramp and all its figures
follow from the first attempt that fails and the cap, whatever the order of things on one
instant.
-/

namespace EchoLoad

namespace Ramp

variable {set : Setting} {s : RampSettings} {peer : Nat → Peer} {w : World} {n : Nat}

theorem CleanGrowth.start (set : Setting) (hw : w.Fresh) (hsignals : w.signals = [])
    (hstopped : w.stopped = false) (hb : 1 ≤ s.batchSize) :
    CleanGrowth set s w.network.peer {} w.activate where
  growing := .start hw
  failureFree := ⟨.of_fresh hw hsignals hstopped, ⟨_, Ledger.of_fresh hw.activate⟩, rfl, by
    simp [World.activate, hw.workers]⟩
  accepted := by
    intro n hn
    exact absurd hn (Nat.not_lt_zero n)
  population := by
    rw [populationAfter]
    split <;> simp
  needed := by
    intro cap _
    rw [Nat.zero_mul]
    omega

/-- At its end a ramp waits for its loops, and nothing more comes to light. -/
theorem settle_ends (hsize : s.payload.Allows n)
    (hw : w.FailureFree set s.payload peer true (· = loopPlan s)) (hd : w.dials = [])
    (ending : RampEnd) :
    ∃ w' clients, Settles (fun fuel => settle set fuel ending w) (w', clients, ending) ∧
      w'.Fair set.options s.payload peer ∧
      w'.network.connections.length = w.network.connections.length := by
  obtain ⟨w1, clients, hw1, hx⟩ := hw.cancel.drain hsize hd
  obtain ⟨fuel, hdrain⟩ := hx.exists_ok
  have hlen := World.drain_connections hdrain
  refine ⟨{ w1 with failures := [] }, clients, hx.bind ?_,
    hw1.fair.of_same rfl rfl rfl rfl rfl rfl (List.Subset.refl _) fun _ hk => .inl hk, hlen⟩
  simp only [hw1.failures]
  cases ending <;> exact .of_ok fun _ => rfl

/-- **A whole ramp comes to its end** at the first attempt that fails, or at the cap. -/
theorem run_ends {o : Output} {session : Session} (hw : session.world.Fresh)
    (hsignals : session.world.signals = []) (hstopped : session.world.stopped = false)
    (hb : 1 ≤ s.batchSize) (hsize : s.payload.Allows n)
    (hpeers : Dependable set.options s.payload session.world.network.peer) {l l' : Location}
    (hjoins : session.store.writable (o.path "join-lat" "csv") = .ok l)
    (hmessages : session.store.writable (o.path "msg-lat" "csv") = .ok l') {stop : Nat}
    (hok : ∀ m < stop, (session.world.network.peer m).accepts set.options = true)
    (hcap : ∀ cap, s.maxClients = some cap → stop ≤ cap)
    (hstop : (session.world.network.peer stop).accepts set.options = false ∨
      s.maxClients = some stop) :
    ∃ session' r, Settles (fun fuel => run set fuel s o session) (session', .ok r) ∧
      r.population = successes set.options session.world.network.peer session'.world.attempts ∧
      r.joinSamples = r.population ∧ r.closed = r.population ∧
      (s.maxClients = some stop → r.ending = .capped ∧ session'.world.attempts = stop ∧
        r.batches = (stop + s.batchSize - 1) / s.batchSize) ∧
      (s.maxClients ≠ some stop → (∃ e, r.ending = .failed .connect e) ∧
        r.batches = stop / s.batchSize + 1 ∧
        session'.world.attempts = populationAfter s (stop / s.batchSize + 1)) := by
  have hstart := CleanGrowth.start set hw hsignals hstopped hb
  obtain ⟨w1, r1, ending, hgrow, hw1, hpop, hcapped, hfailed⟩ :=
    grow_ends hstart hsize hpeers hb hok (Nat.zero_le _) hcap hstop 0
  obtain ⟨fuel, hg⟩ := hgrow.exists_ok
  obtain ⟨a, hbooks, -⟩ := grow_ledger hstart.growing hg
  obtain ⟨w2, clients, hsettle, hfair, hlen⟩ := settle_ends hsize hw1 hbooks.noBatch.dials ending
  obtain ⟨hfair3, hlen3⟩ := hfair.closeBatch (r1.stragglers ++ clients)
  generalize hclose : w2.closeBatch (r1.stragglers ++ clients) = closing at hfair3 hlen3
  obtain ⟨w3, closed⟩ := closing
  let w4 := w3.takeJoins.2.takeMessages.2
  let session1 : Session := { session with world := w4 }
  obtain ⟨c1, hwrite1⟩ := Session.writeSeries_ok (s := session1) w3.takeJoins.1 hjoins
  let session2 : Session := { session1 with store := session1.store.put l (.file c1) }
  obtain ⟨c2, hwrite2⟩ := Session.writeSeries_ok (s := session2) w3.takeJoins.2.takeMessages.1
    (Store.writable_put hjoins hmessages)
  let session3 : Session := { session2 with store := session2.store.put l' (.file c2) }
  let r : RampReport := {
    ending, population := r1.population, batches := r1.batches, closed
    joinSamples := w3.takeJoins.1.length
    messageSamples := w3.takeJoins.2.takeMessages.1.length }
  have hrun : Settles (fun fuel => run set fuel s o session) (session3, .ok r) := by
    refine hgrow.bind ?_
    refine hsettle.bind ?_
    refine .of_ok fun fuel => ?_
    simp only [World.closeAll_zero, hclose, bind, Except.bind]
    rw [hwrite1]
    dsimp only
    rw [hwrite2]
    rfl
  obtain ⟨fuel, hok⟩ := hrun.exists_ok
  obtain ⟨a, e, hsettled, -, hr⟩ := run_ledger hw hok
  obtain ⟨-, hclosed, hjoined⟩ := hr r rfl
  have hfair4 : w4.Fair set.options s.payload session.world.network.peer :=
    hfair3.of_same rfl rfl rfl rfl rfl rfl (List.Subset.refl _) fun _ hk => .inl hk
  have hlen4 : w4.network.connections.length = w1.network.connections.length := hlen3.trans hlen
  obtain ⟨hattempts, hsuccesses, -⟩ := hfair4.census hsettled.ledger.custody hsettled.noBatch.dials
  have hattempts : session3.world.attempts = w1.network.connections.length := hattempts.trans hlen4
  have hpopulation : r.joinSamples = r.population := by
    rw [hjoined, show r.population = r1.population from rfl, hpop, ← hlen4]
    exact hsuccesses
  have hall : r.closed = r.joinSamples := by
    rw [hclosed, hjoined]
    exact hfair4.closings_eq_joins hsettled
  rw [← hattempts] at hpop hcapped hfailed
  exact ⟨session3, r, hrun, hpop, hpopulation, hall.trans hpopulation, hcapped, hfailed⟩

theorem lt_populationAfter {f : Nat} (hb : 1 ≤ s.batchSize)
    (hcap : ∀ cap, s.maxClients = some cap → f < cap) :
    f < populationAfter s (f / s.batchSize + 1) := by
  have hlt : f < (f / s.batchSize + 1) * s.batchSize := by
    rw [Nat.mul_comm]
    exact Nat.lt_mul_div_succ f hb
  unfold populationAfter
  split
  · exact hlt
  · next cap hc => exact Nat.lt_min.2 ⟨hlt, hcap cap hc⟩

theorem successes_prefix {o : ClientOptions} {f : Nat}
    (hok : ∀ n < f, (peer n).accepts o = true) (hfail : ∀ n, f ≤ n → (peer n).accepts o = false)
    (hle : f ≤ n) : successes o peer n = f := by
  induction hle with
  | refl => exact successes_eq_self hok
  | @step m hle ih =>
    rw [successes, List.range_succ, List.countP_append, ← successes, ih]
    simp [hfail m hle]

end Ramp

/-- **The first failure decides a ramp.** Let every attempt end, whoever connects be echoed in
time, nothing interrupt the run and the output be writable. If `f` is the first attempt that fails
and the cap lies beyond it, then the ramp fails at connecting in the batch of `f`, which is made in
full or up to the cap, and population, join samples and closed clients are the attempts that
succeeded; so a peer that accepts `k` clients has them all. If all attempts up to the cap succeed
then it is reached. -/
theorem ramp_first_failure (set : Setting) (s : RampSettings) (o : Output) (session : Session)
    (hw : session.world.Fresh) (hsignals : session.world.signals = [])
    (hstopped : session.world.stopped = false) (hb : 1 ≤ s.batchSize)
    (hsize : ∃ n, s.payload.Allows n)
    (hpeers : Dependable set.options s.payload session.world.network.peer)
    (hjoins : (session.store.writable (o.path "join-lat" "csv")).isOk = true)
    (hmessages : (session.store.writable (o.path "msg-lat" "csv")).isOk = true) :
    let accepts n := (session.world.network.peer n).accepts set.options
    (∀ f, accepts f = false → (∀ n < f, accepts n = true) →
      (∀ cap, s.maxClients = some cap → f < cap) →
      ∃ session' r e, Settles (fun fuel => Ramp.run set fuel s o session) (session', .ok r) ∧
        r.ending = .failed .connect e ∧ r.batches = f / s.batchSize + 1 ∧
        session'.world.attempts = Ramp.populationAfter s (f / s.batchSize + 1) ∧
        r.population = (List.range session'.world.attempts).countP accepts ∧
        r.joinSamples = r.population ∧ r.closed = r.population ∧
        ((∀ n, f ≤ n → accepts n = false) → r.population = f)) ∧
    (∀ cap, s.maxClients = some cap → (∀ n < cap, accepts n = true) →
      ∃ session' r, Settles (fun fuel => Ramp.run set fuel s o session) (session', .ok r) ∧
        r.ending = .capped ∧ r.batches = (cap + s.batchSize - 1) / s.batchSize ∧
        session'.world.attempts = cap ∧ r.population = cap ∧ r.joinSamples = cap ∧
        r.closed = cap) := by
  intro accepts
  obtain ⟨n, hsize⟩ := hsize
  have hwritable : ∀ series, (session.store.writable (o.path series "csv")).isOk = true →
      ∃ l, session.store.writable (o.path series "csv") = .ok l := by
    intro series h
    cases hl : session.store.writable (o.path series "csv") with
    | error e => rw [hl] at h; cases h
    | ok l => exact ⟨l, rfl⟩
  obtain ⟨l, hl⟩ := hwritable _ hjoins
  obtain ⟨l', hl'⟩ := hwritable _ hmessages
  constructor
  · intro f hfails hok hcap
    obtain ⟨session', r, hrun, hpop, hjoined, hclosed, -, hfailed⟩ := Ramp.run_ends hw hsignals
      hstopped hb hsize hpeers hl hl' hok (fun cap hc => Nat.le_of_lt (hcap cap hc)) (.inl hfails)
    obtain ⟨⟨e, he⟩, hbatches, hattempts⟩ := hfailed fun hmax => Nat.lt_irrefl _ (hcap f hmax)
    refine ⟨session', r, e, hrun, he, hbatches, hattempts, hpop, hjoined, hclosed, fun hall => ?_⟩
    rw [hpop]
    refine Ramp.successes_prefix hok hall ?_
    rw [hattempts]
    exact Nat.le_of_lt (Ramp.lt_populationAfter hb hcap)
  · intro cap hmax hok
    have hcap : ∀ cap', s.maxClients = some cap' → cap ≤ cap' := by
      intro cap' hmax'
      rw [hmax] at hmax'
      cases hmax'
      exact Nat.le_refl _
    obtain ⟨session', r, hrun, hpop, hjoined, hclosed, hcapped, -⟩ := Ramp.run_ends hw hsignals
      hstopped hb hsize hpeers hl hl' hok hcap (.inr hmax)
    obtain ⟨he, hattempts, hbatches⟩ := hcapped hmax
    have hfull : r.population = cap := by
      rw [hpop, hattempts]
      exact Ramp.successes_eq_self hok
    exact ⟨session', r, hrun, he, hbatches, hattempts, hfull, hjoined.trans hfull,
      hclosed.trans hfull⟩

/-- Batches of two and a peer that accepts three clients: the second batch is the last, and one of
its members is refused. -/
theorem ramp_first_failure_three :
    ∃ session' r e,
      Settles (fun fuel => Ramp.run { source := SplitMix.source #[] 0 } fuel
        { batchSize := 2, payload := .fixed 0 } ⟨".", "r"⟩ { world := { network :=
          { peers := [{}, {}, {}], rest := { refuse := some .writeZero } } } }) (session', .ok r) ∧
      r.ending = .failed .connect e ∧ r.batches = 2 ∧ session'.world.attempts = 4 ∧
      r.population = 3 ∧ r.closed = 3 := by
  let net : Network := { peers := [{}, {}, {}], rest := { refuse := some .writeZero } }
  have hfresh : ({ network := net } : World).Fresh := ⟨rfl, rfl, rfl, rfl, rfl, rfl, rfl, rfl⟩
  have hpeer : ∀ n, (n < 3 ∧ net.peer n = {}) ∨
      (3 ≤ n ∧ net.peer n = { refuse := some .writeZero }) := by
    intro n
    match n with
    | 0 | 1 | 2 => exact .inl ⟨by decide, rfl⟩
    | n + 3 => exact .inr ⟨Nat.le_add_left .., rfl⟩
  have hechoes : ({} : Peer).Echoes {} (.fixed 0) :=
    ⟨fun _ => rfl, by decide, rfl, by decide, by decide, fun n hn => by rw [hn]; decide⟩
  have haccepts : ∀ n, n < 3 → (net.peer n).accepts {} = true := by
    intro n hn
    obtain ⟨-, h⟩ | ⟨h, -⟩ := hpeer n
    · rw [h]; rfl
    · omega
  have hrefuses : ∀ n, 3 ≤ n → (net.peer n).accepts {} = false := by
    intro n hn
    obtain ⟨h, -⟩ | ⟨-, h⟩ := hpeer n
    · omega
    · rw [h]; rfl
  have hdependable : Dependable {} (.fixed 0) net.peer := by
    refine .of_echoes (fun n => ?_) fun n ha => ?_
    · obtain ⟨-, h⟩ | ⟨-, h⟩ := hpeer n <;> rw [h] <;> exact Option.some_ne_none _
    · obtain ⟨-, h⟩ | ⟨hn, -⟩ := hpeer n
      · rw [h]
        exact hechoes
      · rw [hrefuses n hn] at ha
        cases ha
  obtain ⟨session', r, e, hrun, he, hbatches, hattempts, -, -, hclosed, hpop⟩ :=
    (ramp_first_failure { source := SplitMix.source #[] 0 } { batchSize := 2, payload := .fixed 0 }
      ⟨".", "r"⟩ { world := { network := net } } hfresh rfl rfl (by decide) ⟨0, rfl⟩ hdependable
      (by decide +kernel) (by decide +kernel)).1 3 (hrefuses 3 (Nat.le_refl 3)) haccepts
      (fun _ hc => by cases hc)
  have hpop : r.population = 3 := hpop hrefuses
  exact ⟨session', r, e, hrun, he, hbatches, hattempts, hpop, hclosed.trans hpop⟩

end EchoLoad
