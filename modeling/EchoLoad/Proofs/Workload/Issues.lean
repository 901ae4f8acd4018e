import EchoLoad.Proofs.Workload.FirstRound
import EchoLoad.Random.SplitMix
/-!
The batches that a ramp issues. They are read off the run, also off one that comes to no result: each
is issued while nothing has failed, behind the first rounds of all earlier clients. Main statements:
`grow_issued` and `grow_series` for a ramp from some batch on, `growth_clean` for a whole run.
-/

namespace EchoLoad

open World

/-- A batch is issued while nothing has failed, the run goes on, and there is room. -/
structure Issue.Clear (s : RampSettings) (x : Issue) : Prop where
  active : x.world.active = true
  stopped : x.world.stopped = false
  attempts : x.world.failedAttempts = []
  rounds : x.world.failedRounds = []
  /-- The population is that of all clients that have connected. -/
  population : x.first = x.world.joins
  room : ∀ cap, s.maxClients = some cap → x.first < cap

/-- A batch as a ramp issues it: of the size that is due, and behind a first round of every client
before it. -/
structure Issue.Grows (s : RampSettings) (x : Issue) : Prop extends Issue.Clear s x where
  size : x.size = Ramp.batchAt s x.first
  admitted : ∀ n < x.first, lived n 1 <:+ fiber Event.client n x.world.events

namespace Ramp

variable {set : Setting} {fuel : Nat} {s : RampSettings} {o : Output} {r r' : Ramp} {w w' : World}
  {session : Session} {batches : Nat} {x : Issue} {xs : List Issue}

/-- The batch that is issued next, unless the ramp ends. -/
def issue? (s : RampSettings) (r : Ramp) (w : World) : Option Issue :=
  match r.next s w with
  | (w, .inr size) => some ⟨w, r.population, size⟩
  | _ => none

/-- The batches that are issued from some batch on. -/
def issues (set : Setting) (fuel : Nat) (s : RampSettings) : Nat → Ramp → World → List Issue
  | 0, _, _ => []
  | batches + 1, r, w =>
    (r.issue? s w).toList ++
      match cycle set fuel s r w with
      | .ok (w, r, none) => issues set fuel s batches r w
      | _ => []

def runIssues (set : Setting) (fuel : Nat) (s : RampSettings) (session : Session) : List Issue :=
  issues set fuel s fuel {} session.world.activate

/-- Between two batches everyone has ended a round, unless the run was told to stop. -/
structure Admitted (o : ClientOptions) (r : Ramp) (w : World) : Prop where
  growing : Growing o r w
  rounds : w.active = true → ∀ n < r.population, w.HasEndedRound n

/-! ## The next batch -/

theorem next_inr {size : Nat} (h : r.next s w = (w', .inr size)) :
    w.failures = [] ∧ w.active = true ∧ w.stopped = false ∧
      (∀ cap, s.maxClients = some cap → r.population < cap) ∧ size = batchAt s r.population := by
  cases next_ok h with
  | batch hfailures hactive hstopped hroom => exact ⟨hfailures, hactive, hstopped, hroom, rfl⟩

theorem issue?_inr {size : Nat} (h : r.next s w = (w', .inr size)) :
    r.issue? s w = some ⟨w', r.population, size⟩ := by
  rw [issue?, h]

theorem issue?_inl {ending : RampEnd} (h : r.next s w = (w', .inl ending)) :
    r.issue? s w = none := by
  rw [issue?, h]

theorem issue?_eq_some (h : r.issue? s w = some x) :
    ∃ size, r.next s w = (w, .inr size) ∧ x = ⟨w, r.population, size⟩ := by
  unfold issue? at h
  split at h
  · next w1 size hn =>
    cases h
    obtain rfl := next_goes_on hn
    exact ⟨size, hn, rfl⟩
  · cases h

theorem Growing.clean {o : ClientOptions} (h : Growing o r w) :
    w.dials = [] ∧ w.failedAttempts = [] ∧ w.joins = r.population := by
  obtain ⟨hl, hq, -, -, -⟩ := h.books
  have hattempts : w.failedAttempts = [] := hq.failedAttempts_eq hl
  have hjoins := joins_add_failures hl.custody hq.dials
  rw [hattempts, List.length_nil, Nat.add_zero, ← h.population] at hjoins
  exact ⟨hq.dials, hattempts, hjoins⟩

/-- **A batch is issued as it must be.** -/
theorem Admitted.grows (h : Admitted set.options r w) (hx : r.issue? s w = some x) :
    x.first = r.population ∧ x.Grows s := by
  obtain ⟨size, hn, rfl⟩ := issue?_eq_some hx
  obtain ⟨hfailures, hactive, hstopped, hroom, hsize⟩ := next_inr hn
  obtain ⟨hdials, hattempts, hjoins⟩ := h.growing.clean
  have hl := h.growing.books.ledger
  have hrounds : w.failedRounds = [] := by rw [hl.rounds, hfailures]; rfl
  refine ⟨rfl, ⟨⟨hactive, hstopped, hattempts, hrounds, hjoins.symm, hroom⟩, hsize, ?_⟩⟩
  exact fun n hlt =>
    lived_of_hasEndedRound hl.custody hdials hattempts hrounds (h.rounds hactive n hlt)

/-! ## One batch -/

theorem Admitted.rounds_of_batch {size : Nat} {w1 : World} {out : BatchOutcome} {left : List Client}
    (h : Admitted set.options r w) (hn : r.next s w = (w, .inr size))
    (hc : w.connectBatch set fuel r.population size true = .ok (w1, out, none))
    (hr : out.refusals = []) (ha : admitBatch set fuel s out.connected w1 = .ok (w', left)) :
    out.connected.length = size ∧
      (w'.active = true → ∀ n < r.population + out.connected.length, w'.HasEndedRound n) := by
  obtain ⟨-, hactive, -⟩ := next_inr hn
  have hbooks := h.growing.books
  have hconnect := hc
  rw [h.growing.population] at hconnect
  obtain ⟨hl, hq, -, hsize, -⟩ := connectBatch_ledger hbooks.ledger hbooks.noBatch hconnect
  rw [hr] at hl hsize
  have hattempts : w1.failedAttempts = [] := hq.failedAttempts_eq hl
  refine ⟨hsize, fun hactive' n hlt => ?_⟩
  by_cases hold : n < r.population
  · have hdialed : (w.dialBatch set r.population size).HasEndedRound n :=
      (h.rounds hactive n hold).mono ⟨_, dialBatch_events ..⟩
    obtain ⟨w2, hw2, hover, -⟩ :=
      (connectBatch_waits (hasEndedRound_lasting set n).anyPlan fuel true hdialed).ok hc
    have hw1 : w1.HasEndedRound n := by
      rw [show w1 = w2.handOver.1 from hover]
      exact hw2
    exact (admitBatch_leaves (hasEndedRound_lasting set n).anyPlan ⟨trivial, trivial⟩ hw1).ok ha
  · have hmem : n ∈ List.range' r.population size := by
      rw [List.mem_range'_1, ← hsize]
      exact ⟨Nat.le_of_not_lt hold, hlt⟩
    rcases connectBatch_members hc hmem with ⟨c, hout, rfl⟩ | ⟨e, he⟩
    · exact admitBatch_rounds ha hout hactive'
    · have hfailed : e ∈ w1.failedAttempts := mem_failedAttempts.2 ⟨_, he⟩
      rw [hattempts] at hfailed
      cases hfailed

/-- **A cycle that goes on** has connected and admitted its whole batch. -/
theorem cycle_goes_on (h : cycle set fuel s r w = .ok (w', r', none))
    (hw : Admitted set.options r w) : Admitted set.options r' w' ∧
      ∃ size w1 out, r.next s w = (w, .inr size) ∧
        w.connectBatch set fuel r.population size true = .ok (w1, out, none) ∧
        r'.population = r.population + size ∧ r'.batches = r.batches + 1 := by
  have hgrowing := (cycle_ledger hw.growing h).1 rfl
  have hcycle := cycle_ok h
  generalize hending : (none : Option RampEnd) = ending at hcycle
  cases hcycle with
  | ended | noticed | refused => cases hending
  | @admitted _ w1 _ out _ hn hc hr ha =>
    obtain ⟨hsize, hrounds⟩ := hw.rounds_of_batch hn hc hr ha
    exact ⟨⟨hgrowing, hrounds⟩, _, w1, out, hn, hc, hsize ▸ rfl, rfl⟩
  | @paused _ w1 w2 _ out _ failure hn hc hr ha hp =>
    obtain rfl : failure = none := by simpa using hending.symm
    obtain ⟨hsize, hrounds⟩ := hw.rounds_of_batch hn hc hr ha
    have hlasting : Lasting set fun w =>
        w.active = true → ∀ n < r.population + out.connected.length, w.HasEndedRound n := by
      intro w w' hw hd hactive n hlt
      exact hasEndedRound_lasting set n _ _ (hw (hd.active hactive) n hlt) hd
    have hrounds' := (pause_leaves hlasting.anyPlan hrounds).ok hp
    exact ⟨⟨hgrowing, hrounds'⟩, _, w1, out, hn, hc, hsize ▸ rfl, rfl⟩

/-! ## All batches -/

theorem Admitted.start {o : ClientOptions} (hw : w.Fresh) : Admitted o {} w.activate :=
  ⟨.start hw, fun _ _ hlt => absurd hlt (Nat.not_lt_zero _)⟩

/-- **The batches of a ramp** follow each other, each issued as it must be. -/
theorem grow_series (batches : Nat) (hw : Admitted set.options r w) :
    Series (Issue.Grows s) r.population (issues set fuel s batches r w) := by
  induction batches generalizing r w with
  | zero => trivial
  | succ batches ih =>
    unfold issues
    cases hx : r.issue? s w with
    | none =>
      split
      · next w1 r1 hc =>
        obtain ⟨-, size, -, -, hn, -⟩ := cycle_goes_on hc hw
        rw [issue?_inr hn] at hx
        cases hx
      · trivial
    | some x =>
      obtain ⟨hfirst, hissue⟩ := hw.grows hx
      refine ⟨hfirst, hissue, ?_⟩
      split
      · next w1 r1 hc =>
        obtain ⟨hw1, size, -, -, hn, -, hpopulation, -⟩ := cycle_goes_on hc hw
        rw [issue?_inr hn] at hx
        cases hx
        exact hpopulation ▸ ih hw1
      · trivial

/-- **No attempt is made but in a batch that is issued**, whether or not the ramp comes to an end. -/
theorem grow_issued (batches : Nat) (h : Issued xs w.events) :
    Leaves (fun w' => Issued (xs ++ issues set fuel s batches r w) w'.events)
      (fun x => Issued (xs ++ issues set fuel s batches r w) x.1.events)
      (grow set fuel s batches r w) := by
  induction batches generalizing xs r w with
  | zero => exact (List.append_nil xs).symm ▸ h
  | succ batches ih =>
    have hcycle : Leaves (fun w' => Issued (xs ++ (r.issue? s w).toList) w'.events)
        (fun x => Issued (xs ++ (r.issue? s w).toList) x.1.events) (cycle set fuel s r w) := by
      refine cycle_waits (Issued.lasting set _).anyPlan ⟨trivial, trivial⟩ (fun w h => h)
        (fun w' ending hn => ?_) fun w' size hn => ?_
      · have hnext := (next_keeps (Issued.lasting set xs).anyPlan s r h).1
        rw [hn] at hnext
        rw [issue?_inl hn]
        exact (List.append_nil xs).symm ▸ hnext
      · rw [issue?_inr hn]
        obtain rfl := next_goes_on hn
        exact h.dialBatch set r.population size
    unfold grow issues
    rw [← List.append_assoc]
    rcases hc : cycle set fuel s r w with stop | ⟨w1, r1, _ | ending⟩ <;> rw [hc] at hcycle
    · exact (List.append_nil (xs ++ _)).symm ▸ hcycle
    · exact ih hcycle
    · exact (List.append_nil (xs ++ _)).symm ▸ hcycle

/-- **No attempt is made but in a batch that is issued**, in a whole run. -/
theorem run_issued (hw : session.world.Fresh) :
    Leaves (fun w => Issued (runIssues set fuel s session) w.events)
      (fun x => Issued (runIssues set fuel s session) x.1.world.events)
      (run set fuel s o session) := by
  have hstart : Issued [] session.world.activate.events := by
    rw [show session.world.activate.events = [] from congrArg (List.map Prod.snd) hw.journal]
    exact .start
  exact run_waits (Issued.lasting set _).anyPlan (fun _ c h => h.close c) (fun _ _ h => h)
    (grow_issued fuel hstart)

theorem runIssues_series (set : Setting) (fuel : Nat) (s : RampSettings) (hw : session.world.Fresh) :
    Series (Issue.Grows s) 0 (runIssues set fuel s session) :=
  grow_series fuel (.start hw)

end Ramp

/-! ## Growth ends with the first failure -/

/-- Every attempt was made in one of these batches, when nothing had happened since the batch was
issued but other attempts of it, and when nothing had failed. -/
structure World.GrownBy (xs : List Issue) (w : World) : Prop where
  attempted : w.attempted = xs.flatMap Issue.ids
  issued : ∀ n earlier, .attempt n :: earlier <:+ w.events → ∃ x ∈ xs, n ∈ x.ids ∧
    ∃ begun, earlier = begun ++ x.world.events ∧ ∀ e ∈ begun, ∃ m ∈ x.ids, e = .attempt m
  clean : ∀ n earlier, .attempt n :: earlier <:+ w.events → ∀ e ∈ earlier, e.isFailure = false

theorem Issued.grownBy {xs : List Issue} {w : World} (h : Issued xs w.events)
    (hclean : ∀ x ∈ xs, x.world.failedAttempts = [] ∧ x.world.failedRounds = []) :
    w.GrownBy xs where
  attempted := h.attempted
  issued := by
    intro n earlier hn
    obtain ⟨before, x, after, rfl, hx, hearlier⟩ := h.before hn
    exact ⟨x, by simp, hx, hearlier⟩
  clean := by
    intro n earlier hn e he
    obtain ⟨before, x, after, rfl, -, begun, rfl, hbegun⟩ := h.before hn
    rcases List.mem_append.1 he with he | he
    · obtain ⟨m, -, rfl⟩ := hbegun e he
      rfl
    · obtain ⟨hattempts, hrounds⟩ := hclean x (by simp)
      exact isFailure_eq_false hattempts hrounds he

/-- **A ramp never grows after a failure.** Whether or not a run comes to an end, each batch of it is
issued while no attempt and no round has failed, the run flag is set, the stop latch is clear and the
population is below the cap. Every attempt is made in one of these batches, right when it is issued,
so none is made after a failure. -/
theorem growth_clean (set : Setting) (fuel : Nat) (s : RampSettings) (o : Output)
    {session : Session} (hw : session.world.Fresh) :
    (∀ x ∈ Ramp.runIssues set fuel s session, x.Clear s) ∧
      Leaves (World.GrownBy (Ramp.runIssues set fuel s session))
        (fun x => x.1.world.GrownBy (Ramp.runIssues set fuel s session))
        (Ramp.run set fuel s o session) := by
  have hclear : ∀ x ∈ Ramp.runIssues set fuel s session, x.Clear s :=
    fun x hx => ((Ramp.runIssues_series set fuel s hw).holds hx).toClear
  have hgrown : ∀ {w : World}, Issued (Ramp.runIssues set fuel s session) w.events →
      w.GrownBy (Ramp.runIssues set fuel s session) :=
    fun h => h.grownBy fun x hx => ⟨(hclear x hx).attempts, (hclear x hx).rounds⟩
  exact ⟨hclear, (Ramp.run_issued hw).mono (fun _ h => hgrown h) fun _ _ h => hgrown h⟩

/-- The first client loses its peer in its second round, while the second client is admitted. There is
no third attempt. -/
theorem growth_clean_two :
    ∃ session' r, Ramp.run { source := SplitMix.source #[] 0 } 40
        { batchSize := 1, payload := .fixed 0 } ⟨".", "r"⟩
        { world := { network := { peers := [{ replies := [.echo, .hangup] }] } } } =
          .ok (session', .ok r) ∧
      r.batches = 2 ∧ session'.world.attempted = [0, 1] ∧ session'.world.failedRounds ≠ [] ∧
      ∀ n earlier, .attempt n :: earlier <:+ session'.world.events →
        ∀ e ∈ earlier, e.isFailure = false := by
  have hrun : ((Ramp.run { source := SplitMix.source #[] 0 } 40
      { batchSize := 1, payload := .fixed 0 } ⟨".", "r"⟩
      { world := { network := { peers := [{ replies := [.echo, .hangup] }] } } }).toOption.any
        fun x => x.1.world.attempted = [0, 1] ∧ x.1.world.failedRounds ≠ [] ∧
          x.2.toOption.any fun r => r.batches = 2) = true := by
    decide +kernel
  obtain ⟨⟨session', result⟩, h, hresult⟩ := toOption_any.1 hrun
  obtain ⟨hattempted, hfailed, hreport⟩ := of_decide_eq_true hresult
  obtain ⟨r, rfl, hbatches⟩ := toOption_any.1 hreport
  let session : Session :=
    { world := { network := { peers := [{ replies := [.echo, .hangup] }] } } }
  have hfresh : session.world.Fresh := ⟨rfl, rfl, rfl, rfl, rfl, rfl, rfl, rfl⟩
  have hgrown := (growth_clean { source := SplitMix.source #[] 0 } 40
    { batchSize := 1, payload := .fixed 0 } ⟨".", "r"⟩ hfresh).2.ok h
  exact ⟨session', r, h, of_decide_eq_true hbatches, hattempted, hfailed, hgrown.clean⟩

end EchoLoad
