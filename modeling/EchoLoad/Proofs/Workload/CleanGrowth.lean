import EchoLoad.Proofs.Census
import EchoLoad.Proofs.Workload.Admission
import EchoLoad.Proofs.Workload.Ramp
/-!
A ramp in a world without failures. As long as all attempts succeed each batch brings it up to the
next multiple of the batch size, or to the cap; the first batch with a failure is its last. Main
statements: `cycle_cleanGrowth` and `cycle_fails` for one batch, and `grow_ends` for all of them.
-/

namespace EchoLoad.Ramp

/-- The attempts that so many batches make. -/
def populationAfter (s : RampSettings) (batches : Nat) : Nat :=
  match s.maxClients with
  | none => batches * s.batchSize
  | some cap => min (batches * s.batchSize) cap

def successes (o : ClientOptions) (peer : Nat → Peer) (n : Nat) : Nat :=
  (List.range n).countP fun n => (peer n).accepts o

/-- Between two batches of a ramp in which nothing has failed. -/
structure CleanGrowth (set : Setting) (s : RampSettings) (peer : Nat → Peer) (r : Ramp) (w : World) :
    Prop where
  growing : Growing set.options r w
  failureFree : w.FailureFree set s.payload peer true (· = loopPlan s)
  accepted : ∀ n < r.population, (peer n).accepts set.options = true
  population : r.population = populationAfter s r.batches
  /-- The last batch was needed. -/
  needed : ∀ cap, s.maxClients = some cap → r.batches * s.batchSize < cap + s.batchSize

variable {set : Setting} {s : RampSettings} {peer : Nat → Peer} {r : Ramp} {w : World} {n : Nat}

theorem successes_add_failures (o : ClientOptions) (peer : Nat → Peer) (n : Nat) :
    successes o peer n + (List.range n).countP (fun n => !(peer n).accepts o) = n := by
  have h := List.length_eq_countP_add_countP (fun n => (peer n).accepts o) (l := List.range n)
  rw [List.length_range] at h
  simpa [successes] using h.symm

theorem successes_eq_self {o : ClientOptions} (h : ∀ m < n, (peer m).accepts o = true) :
    successes o peer n = n := by
  rw [successes, List.countP_eq_length.2 fun m hm => h m (List.mem_range.1 hm), List.length_range]

/-! ## One batch -/

/-- A batch that has ended, in figures. -/
theorem batch_figures (h : CleanGrowth set s peer r w) (hsize : s.payload.Allows n)
    (hpeers : Dependable set.options s.payload peer) (m : Nat) :
    ∃ w' out, Settles (fun fuel => w.connectBatch set fuel r.population m true) (w', out, none) ∧
      w'.FailureFree set s.payload peer true (· = loopPlan s) ∧ w'.NoBatch ∧
      Ledger set.options
        { held := r.stragglers ++ out.connected, refused := out.refusals } w' ∧
      (∀ c ∈ out.connected, c.isOpen = true) ∧
      w'.network.connections.length = r.population + m ∧
      r.population + out.connected.length = successes set.options peer (r.population + m) ∧
      r.population + m = successes set.options peer (r.population + m) + out.refusals.length := by
  obtain ⟨w', out, hw', hx⟩ := h.failureFree.connectBatch hsize hpeers m true
  obtain ⟨enough, hok⟩ := hx
  obtain ⟨hl, hq, hopen, hlen, hconns, -⟩ := World.connectBatch_ledger h.growing.books.ledger
    h.growing.books.noBatch (hok enough (Nat.le_refl _))
  rw [← h.growing.population] at hok hconns
  have hl : Ledger set.options
      { held := r.stragglers ++ out.connected, refused := out.refusals } w' := hl
  obtain ⟨-, -, hfailed⟩ := hw'.fair.census hl.custody hq.dials
  rw [hq.failedAttempts_eq hl, hconns] at hfailed
  dsimp only at hfailed
  have hall := successes_add_failures set.options peer (r.population + m)
  rw [← hfailed] at hall
  exact ⟨w', out, ⟨enough, hok⟩, hw', hq, hl, hopen, hconns, by omega, by omega⟩

theorem next_capped (h : CleanGrowth set s peer r w) {cap : Nat} (hcap : s.maxClients = some cap)
    (hle : cap ≤ r.population) : r.next s w = (w, .inl .capped) := by
  unfold next
  rw [h.failureFree.failures]
  simp [h.failureFree.flag, h.failureFree.fair.stopped, hcap, hle]

theorem next_size (h : CleanGrowth set s peer r w)
    (hcap : ∀ cap, s.maxClients = some cap → r.population < cap) :
    ∃ m, r.next s w = (w, .inr m) ∧ r.population + m = populationAfter s (r.batches + 1) ∧
      m ≤ s.batchSize ∧ (1 ≤ s.batchSize → 1 ≤ m) ∧ r.population = r.batches * s.batchSize := by
  have hpop := h.population
  unfold next
  rw [h.failureFree.failures]
  simp only [populationAfter, Nat.add_one_mul] at hpop ⊢
  cases hc : s.maxClients with
  | none =>
    rw [hc] at hpop
    refine ⟨s.batchSize, by simp [h.failureFree.flag, h.failureFree.fair.stopped], ?_⟩
    dsimp only at hpop ⊢
    omega
  | some cap =>
    rw [hc] at hpop
    have hlt := hcap cap hc
    refine ⟨min s.batchSize (cap - r.population), by
      simp [h.failureFree.flag, h.failureFree.fair.stopped, Nat.not_le.2 hlt], ?_⟩
    dsimp only at hpop ⊢
    omega

/-- **A batch without a failure.** The ramp goes on. -/
theorem cycle_cleanGrowth (h : CleanGrowth set s peer r w) (hsize : s.payload.Allows n)
    (hpeers : Dependable set.options s.payload peer)
    (hcap : ∀ cap, s.maxClients = some cap → r.population < cap)
    (hok : ∀ m < populationAfter s (r.batches + 1), (peer m).accepts set.options = true) :
    ∃ w' r', Settles (fun fuel => cycle set fuel s r w) (w', r', none) ∧
      CleanGrowth set s peer r' w' ∧ r'.batches = r.batches + 1 := by
  obtain ⟨m, hnext, hreach, -, -, hpop⟩ := next_size h hcap
  obtain ⟨w1, out, hx, hw1, hq1, hl1, hopen, hconns, hpop1, hfailed⟩ :=
    batch_figures h hsize hpeers m
  rw [hreach] at hconns hpop1 hfailed
  rw [successes_eq_self hok] at hpop1 hfailed
  have hnone : out.refusals = [] := List.length_eq_zero_iff.1 (by omega)
  rw [hnone] at hl1
  have hl1 : Ledger set.options
      { held := out.connected ++ r.stragglers } w1 :=
    hl1.perm List.perm_append_comm
  obtain ⟨w2, left, hw2, hx2⟩ :=
    admitBatch_ends (a := { held := r.stragglers }) hsize hw1 hl1 hq1 hopen
  let r' : Ramp := ⟨r.population + out.connected.length, r.batches + 1, r.stragglers ++ left⟩
  obtain ⟨w', hw', hx'⟩ : ∃ w', w'.FailureFree set s.payload peer true (· = loopPlan s) ∧
      Settles (fun fuel => cycle set fuel s r w) (w', r', none) := by
    simp only [cycle, hnext]
    by_cases hpause : s.batchPause = 0
    · refine ⟨w2, hw2, hx.bind ?_⟩
      simp only [hnone]
      refine hx2.bind ?_
      simp only [if_pos hpause]
      exact .of_ok fun _ => rfl
    · obtain ⟨fuel, ha⟩ := hx2.exists_ok
      obtain ⟨-, hq2⟩ := admitBatch_ledger (a := { held := r.stragglers }) hl1 hq1 hopen ha
      obtain ⟨w3, hw3, hx3⟩ := hw2.pause hsize hq2.dials s.batchPause
      refine ⟨w3, hw3, hx.bind ?_⟩
      simp only [hnone]
      refine hx2.bind ?_
      simp only [if_neg hpause]
      exact hx3.bind (.of_ok fun _ => rfl)
  obtain ⟨fuel, hc⟩ := hx'.exists_ok
  refine ⟨w', r', hx', ⟨(cycle_ledger h.growing hc).1 rfl, hw', ?_, hpop1, fun cap hc => ?_⟩, rfl⟩
  · rw [show r'.population = _ from hpop1]
    exact hok
  · have hlt := hcap cap hc
    simp only [r', Nat.add_one_mul]
    omega

/-- **A batch with a failure.** The ramp ends. -/
theorem cycle_fails (h : CleanGrowth set s peer r w) (hsize : s.payload.Allows n)
    (hpeers : Dependable set.options s.payload peer)
    (hcap : ∀ cap, s.maxClients = some cap → r.population < cap) {f : Nat}
    (hf : f < populationAfter s (r.batches + 1)) (hfails : (peer f).accepts set.options = false) :
    ∃ w' r' e, Settles (fun fuel => cycle set fuel s r w) (w', r', some (.failed .connect e)) ∧
      w'.FailureFree set s.payload peer true (· = loopPlan s) ∧ r'.batches = r.batches + 1 ∧
      w'.network.connections.length = populationAfter s (r.batches + 1) ∧
      r'.population = successes set.options peer (populationAfter s (r.batches + 1)) := by
  obtain ⟨m, hnext, hreach, -, -, -⟩ := next_size h hcap
  obtain ⟨w1, out, hx, hw1, -, -, -, hconns, hpop, hfailed⟩ := batch_figures h hsize hpeers m
  rw [hreach] at hconns hpop hfailed
  have hlt : successes set.options peer (populationAfter s (r.batches + 1)) <
      populationAfter s (r.batches + 1) := by
    have hpos : 0 < (List.range (populationAfter s (r.batches + 1))).countP
        fun n => !(peer n).accepts set.options :=
      List.countP_pos_iff.2 ⟨f, List.mem_range.2 hf, by simp [hfails]⟩
    have hall := successes_add_failures set.options peer (populationAfter s (r.batches + 1))
    omega
  obtain ⟨e, rest, hr⟩ := List.exists_cons_of_ne_nil
    (List.ne_nil_of_length_pos (l := out.refusals) (by omega))
  refine ⟨w1, ⟨r.population + out.connected.length, r.batches + 1, r.stragglers ++ out.connected⟩,
    e, ?_, hw1, rfl, hconns, hpop⟩
  simp only [cycle, hnext]
  refine hx.bind ?_
  simp only [hr]
  exact .of_ok fun _ => rfl

/-! ## All batches -/

theorem grow_stops {w' : World} {r' : Ramp} {ending : RampEnd}
    (hc : Settles (fun fuel => cycle set fuel s r w) (w', r', some ending)) (extra : Nat) :
    Settles (fun fuel => grow set (fuel + extra) s fuel r w) (w', r', ending) := by
  obtain ⟨a, ha⟩ := hc
  refine ⟨a + 1, fun fuel hf => ?_⟩
  obtain ⟨fuel, rfl⟩ := Nat.exists_eq_add_of_le' (Nat.le_of_add_left_le hf)
  have ha := ha (fuel + 1 + extra) (by omega)
  dsimp only at ha ⊢
  rw [grow, ha]

theorem grow_goes_on {w' : World} {r' : Ramp} {x : World × Ramp × RampEnd} {extra : Nat}
    (hc : Settles (fun fuel => cycle set fuel s r w) (w', r', none))
    (hg : Settles (fun fuel => grow set (fuel + (extra + 1)) s fuel r' w') x) :
    Settles (fun fuel => grow set (fuel + extra) s fuel r w) x := by
  obtain ⟨a, ha⟩ := hc
  obtain ⟨b, hb⟩ := hg
  refine ⟨max a b + 1, fun fuel hf => ?_⟩
  obtain ⟨fuel, rfl⟩ := Nat.exists_eq_add_of_le' (Nat.le_of_add_left_le hf)
  have ha := ha (fuel + 1 + extra) (by omega)
  have hb := hb fuel (by omega)
  dsimp only at ha hb ⊢
  rw [grow, ha]
  rwa [show fuel + (extra + 1) = fuel + 1 + extra by omega] at hb

/-- **A ramp comes to its end** at the first attempt that fails, or at the cap. -/
theorem grow_ends (h : CleanGrowth set s peer r w) (hsize : s.payload.Allows n)
    (hpeers : Dependable set.options s.payload peer) (hb : 1 ≤ s.batchSize) {stop : Nat}
    (hok : ∀ m < stop, (peer m).accepts set.options = true) (hle : r.population ≤ stop)
    (hcap : ∀ cap, s.maxClients = some cap → stop ≤ cap)
    (hstop : (peer stop).accepts set.options = false ∨ s.maxClients = some stop) (extra : Nat) :
    ∃ w' r' ending, Settles (fun fuel => grow set (fuel + extra) s fuel r w) (w', r', ending) ∧
      w'.FailureFree set s.payload peer true (· = loopPlan s) ∧
      r'.population = successes set.options peer w'.network.connections.length ∧
      (s.maxClients = some stop → ending = .capped ∧ w'.network.connections.length = stop ∧
        r'.batches = (stop + s.batchSize - 1) / s.batchSize) ∧
      (s.maxClients ≠ some stop → (∃ e, ending = .failed .connect e) ∧
        r'.batches = stop / s.batchSize + 1 ∧
        w'.network.connections.length = populationAfter s (stop / s.batchSize + 1)) := by
  induction hn : stop - r.population using Nat.strong_induction_on generalizing r w extra with
  | _ rest ih =>
    have hpop := h.growing.population
    by_cases hdone : s.maxClients = some stop ∧ r.population = stop
    · obtain ⟨hmax, hfull⟩ := hdone
      have hnext := next_capped h hmax (Nat.le_of_eq hfull.symm)
      have hcycle : ∀ fuel, cycle set fuel s r w = .ok (w, r, some .capped) := by
        intro fuel
        rw [cycle, hnext]
        rfl
      refine ⟨w, r, .capped, grow_stops (.of_ok hcycle) extra, h.failureFree, ?_,
        fun _ => ⟨rfl, ?_, ?_⟩, fun hne => absurd hmax hne⟩
      · rw [← hpop, successes_eq_self h.accepted]
      · rw [← hpop, hfull]
      · have hneeded := h.needed stop hmax
        have hreach := h.population
        rw [populationAfter, hmax] at hreach
        dsimp only at hreach
        symm
        rw [Nat.div_eq_iff (by omega)]
        omega
    · have hlt : ∀ cap, s.maxClients = some cap → r.population < cap := by
        intro cap hc
        have hle' := hcap cap hc
        refine Nat.lt_of_le_of_ne (Nat.le_trans hle hle') fun heq => hdone ?_
        have hstop : cap = stop := by omega
        exact ⟨hstop ▸ hc, heq.trans hstop⟩
      obtain ⟨m, -, hreach, hm, hpos, hfloor⟩ := next_size h hlt
      by_cases hclean : populationAfter s (r.batches + 1) ≤ stop
      · obtain ⟨w1, r1, hx, h1, hb1⟩ := cycle_cleanGrowth h hsize hpeers hlt
          fun m hm => hok m (Nat.lt_of_lt_of_le hm hclean)
        have hpop1 : r1.population = populationAfter s (r.batches + 1) := by rw [h1.population, hb1]
        have hpos := hpos hb
        obtain ⟨w', r', ending, hx', hend⟩ := ih (stop - r1.population) (by omega) h1 (by omega)
          (extra + 1) rfl
        exact ⟨w', r', ending, grow_goes_on hx hx', hend⟩
      · have hne : s.maxClients ≠ some stop := by
          intro hmax
          rw [populationAfter, hmax] at hclean
          exact hclean (Nat.min_le_right ..)
        obtain ⟨w1, r1, e, hx, hw1, hb1, hlen, hpop1⟩ := cycle_fails h hsize hpeers hlt
          (Nat.lt_of_not_le hclean) (hstop.resolve_right hne)
        have hdiv : stop / s.batchSize = r.batches := by
          rw [Nat.div_eq_iff hb]
          omega
        exact ⟨w1, r1, .failed .connect e, grow_stops hx extra, hw1, hlen ▸ hpop1,
          fun hmax => absurd hmax hne,
          fun _ => ⟨⟨e, rfl⟩, by rw [hb1, hdiv], by rw [hlen, hdiv]⟩⟩

end EchoLoad.Ramp
