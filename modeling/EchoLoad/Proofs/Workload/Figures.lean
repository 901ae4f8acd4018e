import EchoLoad.Proofs.Tally
import EchoLoad.Proofs.Workload.Established
import EchoLoad.Proofs.Workload.Issues
/-!
The figures of a ramp report. They are those of the batches that the run issued, of the attempts that
connected and of the rounds that were echoed. Main statements: `grow_figures` for the batches and
`ramp_figures` for the report.
-/

namespace EchoLoad

theorem Sink.messages_record_join (s : Sink) (d : Duration) :
    (s.record (.join d)).collect.messages = s.collect.messages := by
  simp [Sink.record, Sink.collect, Sink.messageOf]

namespace World

variable {set : Setting} {w w' : World}

/-! ## Rounds and samples -/

def Sampled (w : World) : Prop := w.sink.collect.messages.length = w.events.countP Event.isEcho

theorem sampled_lasting (set : Setting) : Lasting set Sampled := by
  intro w w' hw h
  have hsame : w'.sink = w.sink → w'.journal = w.journal → w'.Sampled := by
    intro hsink hjournal
    unfold Sampled events at hw ⊢
    rw [hsink, hjournal]
    exact hw
  cases h with
  | internalStep hs =>
    cases hs with
    | signal hsignal => exact hsame (by rw [interrupted_eq hsignal]) (by rw [interrupted_eq hsignal])
    | arrived => exact (congrArg List.length (Sink.messages_record_join ..)).trans hw
    | @echoed i k t latency =>
      have hevents : (w.echoed i k latency).events = .roundEnded k.client.id none :: w.events := rfl
      rw [Sampled, hevents, List.countP_cons_of_pos rfl, ← hw]
      exact (congrArg List.length (Sink.messages_record_message ..)).trans List.length_append
    | declined | broken | start => exact hw
    | retire => exact hsame rfl rfl
  | pass | failures | join | cancel | spawn => exact hsame rfl rfl

theorem Sampled.dialBatch (set : Setting) (first size : Nat) (h : w.Sampled) :
    (w.dialBatch set first size).Sampled := by
  have hnone : ((List.range' first size).map Event.attempt).reverse.countP Event.isEcho = 0 := by
    refine List.countP_eq_zero.2 fun e he => ?_
    obtain ⟨n, -, rfl⟩ := List.mem_map.1 (List.mem_reverse.1 he)
    exact Bool.noConfusion
  rw [Sampled, dialBatch_sink, dialBatch_events, List.countP_append, hnone, Nat.zero_add]
  exact h

theorem Sampled.close (h : w.Sampled) (c : Client) : (w.close c).Sampled := by
  unfold World.close
  split <;> exact h

/-! ## Attempts that have succeeded -/

theorem joins_lasting (set : Setting) (n : Nat) :
    Lasting set fun w => w.dials = [] ∧ w.joins = n := by
  rintro w w' ⟨hdials, hjoins⟩ h
  cases h with
  | internalStep hs =>
    cases hs with
    | signal hsignal =>
      rw [interrupted_eq hsignal]
      exact ⟨hdials, hjoins⟩
    | arrived hd | declined hd => simp [hdials] at hd
    | echoed | broken | start | retire => exact ⟨hdials, hjoins⟩
  | pass | failures | join | cancel | spawn => exact ⟨hdials, hjoins⟩

theorem close_joins {n : Nat} (h : w.dials = [] ∧ w.joins = n) (c : Client) :
    (w.close c).dials = [] ∧ (w.close c).joins = n := by
  unfold World.close
  split <;> exact h

end World

open World

namespace Ramp

variable {set : Setting} {fuel : Nat} {s : RampSettings} {o : Output} {r r' : Ramp} {w w' : World}
  {session session' : Session} {batches : Nat} {xs : List Issue} {ending : RampEnd}

/-! ## The batches -/

/-- The sizes of the batches: the batch size, but for the last. -/
theorem series_sizes {n : Nat} (h : Series (Issue.Grows s) n xs) {k : Nat} {x : Issue}
    (hx : xs[k]? = some x) :
    x.first = n + k * s.batchSize ∧ (k + 1 < xs.length → x.size = s.batchSize) := by
  induction xs generalizing n k with
  | nil => simp at hx
  | cons y xs ih =>
    obtain ⟨rfl, hy, hrest⟩ := h
    -- a batch with another behind it is not cut, because there is room behind it
    have hfull : xs ≠ [] → y.size = s.batchSize := by
      intro hne
      obtain ⟨z, zs, rfl⟩ := List.exists_cons_of_ne_nil hne
      obtain ⟨hz, hgrows, -⟩ := hrest
      have hsize := hy.size
      unfold batchAt at hsize
      cases hmax : s.maxClients with
      | none =>
        rw [hmax] at hsize
        exact hsize
      | some cap =>
        rw [hmax] at hsize
        have hroom := hgrows.room cap hmax
        dsimp only at hsize
        omega
    cases k with
    | zero =>
      obtain rfl : y = x := by simpa using hx
      refine ⟨by simp, fun hlt => hfull ?_⟩
      rintro rfl
      simp at hlt
    | succ k =>
      rw [List.getElem?_cons_succ] at hx
      obtain ⟨hfirst, hsize⟩ := ih hrest hx
      have hne : xs ≠ [] := by
        rintro rfl
        simp at hx
      refine ⟨?_, fun hlt => hsize (by simpa using hlt)⟩
      rw [hfirst, hfull hne, Nat.add_one_mul]
      omega

theorem series_le {n cap : Nat} (hmax : s.maxClients = some cap) (h : Series (Issue.Grows s) n xs)
    (hn : n ≤ cap) : n + (xs.map Issue.size).sum ≤ cap := by
  induction xs generalizing n with
  | nil => exact hn
  | cons y xs ih =>
    obtain ⟨rfl, hy, hrest⟩ := h
    have hsize := hy.size
    simp only [batchAt, hmax] at hsize
    have := ih hrest (by omega)
    rw [List.map_cons, List.sum_cons]
    omega

/-- The population of a ramp that has ended, by its last batch. If a failure was received while that
batch connected its members have joined, but are not counted. -/
def Counts (set : Setting) (fuel : Nat) (population joins : Nat) (x : Issue) : Prop :=
  ∃ w out seen, x.world.connectBatch set fuel x.first x.size true = .ok (w, out, seen) ∧
    match seen with
    | none => population = joins
    | some _ => population + out.connected.length = joins

/-- What a ramp that has ended has made of its batches `xs`. -/
structure Ended (set : Setting) (fuel : Nat) (s : RampSettings) (r : Ramp) (xs : List Issue)
    (r' : Ramp) (w' : World) (ending : RampEnd) : Prop where
  batches : r'.batches = r.batches + xs.length
  dials : w'.dials = []
  none : xs = [] → r'.population = r.population ∧ w'.joins = r.population
  last : ∀ x, xs.getLast? = some x → Counts set fuel r'.population w'.joins x
  capped : ending = .capped → ∃ cap, s.maxClients = some cap ∧ cap ≤ r'.population

theorem batch_joins {size : Nat} {out : BatchOutcome} {seen : Option Failure}
    (hg : Growing set.options r w)
    (hc : w.connectBatch set fuel r.population size true = .ok (w', out, seen)) :
    w'.dials = [] ∧ w'.joins = r.population + out.connected.length := by
  rw [hg.population] at hc
  obtain ⟨hl, hq, -, hsize, hlen, -⟩ := connectBatch_ledger hg.books.ledger hg.books.noBatch hc
  have hjoins := joins_add_failures hl.custody hq.dials
  have hattempts : w'.failedAttempts = out.refusals := hq.failedAttempts_eq hl
  rw [hattempts, hlen, ← hg.population] at hjoins
  exact ⟨hq.dials, by omega⟩

theorem Ended.single {x : Issue} (hbatches : r'.batches = r.batches + 1) (hdials : w'.dials = [])
    (hx : Counts set fuel r'.population w'.joins x) (hcapped : ending ≠ .capped) :
    Ended set fuel s r [x] r' w' ending where
  batches := hbatches
  dials := hdials
  none := fun hnil => absurd hnil (List.cons_ne_nil _ _)
  last := by
    intro y hy
    obtain rfl : x = y := by simpa using hy
    exact hx
  capped := fun h => absurd h hcapped

theorem cycle_ended (hw : Admitted set.options r w)
    (h : cycle set fuel s r w = .ok (w', r', some ending)) :
    Ended set fuel s r (r.issue? s w).toList r' w' ending := by
  have hcycle := cycle_ok h
  generalize hending : some ending = last at hcycle
  cases hcycle with
  | ended hn =>
    cases hending
    rw [issue?_inl hn]
    obtain ⟨hdials, -, hjoins⟩ := hw.growing.clean
    have hnext := (next_keeps (joins_lasting set r.population).anyPlan s r ⟨hdials, hjoins⟩).1
    rw [hn] at hnext
    refine ⟨rfl, hnext.1, fun _ => ⟨rfl, hnext.2⟩, fun x hx => by simp at hx, fun he => ?_⟩
    rw [he] at hn
    cases next_ok hn with
    | capped _ _ _ hmax hle => exact ⟨_, hmax, hle⟩
  | noticed hn hc =>
    cases hending
    rw [issue?_inr hn]
    obtain ⟨hdials, hjoins⟩ := batch_joins hw.growing hc
    exact .single rfl hdials ⟨_, _, _, hc, hjoins.symm⟩ RampEnd.noConfusion
  | refused hn hc =>
    cases hending
    rw [issue?_inr hn]
    obtain ⟨hdials, hjoins⟩ := batch_joins hw.growing hc
    exact .single rfl hdials ⟨_, _, _, hc, hjoins.symm⟩ RampEnd.noConfusion
  | admitted => cases hending
  | @paused _ w1 w2 _ out _ failure hn hc hr ha hp =>
    rw [issue?_inr hn]
    obtain ⟨f, -, rfl⟩ := Option.map_eq_some_iff.1 hending.symm
    have hlasting := joins_lasting set (r.population + out.connected.length)
    obtain ⟨hdials, hjoins⟩ := (pause_leaves hlasting.anyPlan
      ((admitBatch_leaves hlasting.anyPlan ⟨trivial, trivial⟩
        (batch_joins hw.growing hc)).ok ha)).ok hp
    exact .single rfl hdials ⟨_, _, _, hc, hjoins.symm⟩ RampEnd.noConfusion

/-- **What a ramp has made of its batches** when it ends. -/
theorem grow_figures (hw : Admitted set.options r w)
    (h : grow set fuel s batches r w = .ok (w', r', ending)) :
    Ended set fuel s r (issues set fuel s batches r w) r' w' ending := by
  induction batches generalizing r w with
  | zero => cases h
  | succ batches ih =>
    unfold grow at h
    unfold issues
    rcases hc : cycle set fuel s r w with stop | ⟨w1, r1, _ | ending1⟩ <;> rw [hc] at h
    · cases h
    · obtain ⟨hw1, size, w2, out, hn, hconnect, hpopulation, hbatches⟩ := cycle_goes_on hc hw
      rw [issue?_inr hn]
      have hrest := ih hw1 h
      dsimp only
      refine ⟨?_, hrest.dials, fun hnil => absurd hnil (List.cons_ne_nil _ _), fun x hx => ?_,
        hrest.capped⟩
      · rw [hrest.batches, hbatches, List.length_append]
        simp only [Option.toList_some, List.length_singleton]
        omega
      · cases hxs : issues set fuel s batches r1 w1 with
        | nil =>
          obtain ⟨hpop, hjoins⟩ := hrest.none hxs
          rw [hxs] at hx
          obtain rfl : _ = x := by simpa using hx
          exact ⟨w2, out, none, hconnect, hpop.trans hjoins.symm⟩
        | cons y ys =>
          rw [hxs] at hx hrest
          exact hrest.last x (by simpa using hx)
    · cases h
      exact (List.append_nil (r.issue? s w).toList).symm ▸ cycle_ended hw hc

/-! ## The report -/

theorem settle_capped {clients : List Client}
    (h : settle set fuel ending w = .ok (w', clients, .capped)) : ending = .capped := by
  obtain ⟨⟨w1, clients1⟩, -, h⟩ := bind_eq_ok.1 h
  dsimp only at h
  split at h <;> cases h
  rfl

/-- What settling, closing and waiting keep is kept from the last batch to the end of a run. -/
theorem end_keeps {P : World → Prop} {pause : Duration} {size closed : Nat} {w2 w3 : World}
    {ending' : RampEnd} {clients stragglers : List Client} (hP : Lasting set P)
    (hclose : ∀ w c, P w → P (w.close c)) (hw : P w)
    (hsettle : settle set fuel ending w = .ok (w2, clients, ending'))
    (h : w2.closeAll set fuel size pause (stragglers ++ clients) = .ok (w3, closed)) : P w3 :=
  (closeAll_leaves hP.anyPlan hclose ((settle_leaves hP.anyPlan hw).ok hsettle)).ok h

/-- **Each round that was echoed leaves a sample**, in a whole run. -/
theorem run_messages {report : RampReport} (hw : session.world.Fresh)
    (h : run set fuel s o session = .ok (session', .ok report)) :
    report.messageSamples = session'.world.events.countP Event.isEcho := by
  obtain ⟨w1, r, ending1, w2, clients, ending, w3, closed, hgrow, hsettle, hclose, hworld, rfl⟩ :=
    run_ok h
  have hstart : session.world.activate.Sampled := by
    simp [Sampled, World.activate, events, hw.sink, hw.journal, Sink.collect]
  have hgrown : w1.Sampled := (grow_waits (sampled_lasting set).anyPlan ⟨trivial, trivial⟩
    (fun _ h => h) (fun _ _ _ _ h => h.dialBatch set _ _) hstart).ok hgrow
  have hsampled : w3.Sampled :=
    end_keeps (sampled_lasting set) (fun _ c h => h.close c) hgrown hsettle hclose
  rw [hworld]
  refine Eq.trans ?_ hsampled
  exact congrArg List.length (List.append_nil w3.sink.collect.messages)

theorem Ended.le (h : Ended set fuel s r xs r' w' ending) : r'.population ≤ w'.joins := by
  rcases List.eq_nil_or_concat' xs with hnil | ⟨before, x, hxs⟩
  · obtain ⟨hpopulation, hjoins⟩ := h.none hnil
    rw [hpopulation, hjoins]
  · obtain ⟨w, out, seen, -, hcounts⟩ := h.last x (by rw [hxs, List.getLast?_concat])
    cases seen with
    | none => exact Nat.le_of_eq hcounts
    | some f => exact Nat.le_of_add_right_le (Nat.le_of_eq hcounts)

/-- The figures of a report agree with the batches `xs` that were issued and with what has happened. -/
structure Agrees (set : Setting) (fuel : Nat) (s : RampSettings) (xs : List Issue) (w : World)
    (r : RampReport) : Prop where
  batches : r.batches = xs.length
  /-- Each batch has the batch size, but for the last, which the cap may cut. -/
  sizes : ∀ k x, xs[k]? = some x → x.first = k * s.batchSize ∧ x.size = batchAt s x.first ∧
    (k + 1 < xs.length → x.size = s.batchSize)
  attempted : w.attempted = xs.flatMap Issue.ids
  /-- The ids of the attempts are counted up from 0. -/
  ids : w.attempted = List.range w.attempts
  joins : r.joinSamples = w.joins
  idle : xs = [] → r.population = 0 ∧ r.joinSamples = 0
  population : ∀ x, xs.getLast? = some x → Counts set fuel r.population r.joinSamples x
  cap : ∀ cap, s.maxClients = some cap → r.population ≤ cap
  capped : r.ending = .capped → s.maxClients = some r.population
  messages : r.messageSamples = w.events.countP Event.isEcho

end Ramp

/-- **The arithmetic of a ramp report.** -/
theorem ramp_figures {set : Setting} {fuel : Nat} {s : RampSettings} {o : Output}
    {session session' : Session} {r : RampReport} (hw : session.world.Fresh)
    (h : Ramp.run set fuel s o session = .ok (session', .ok r)) :
    Ramp.Agrees set fuel s (Ramp.runIssues set fuel s session) session'.world r := by
  obtain ⟨w1, r1, ending1, w2, clients, ending, w3, closed, hgrow, hsettle, hclose, hworld, rfl⟩ :=
    Ramp.run_ok h
  have hended : Ramp.Ended set fuel s {} (Ramp.runIssues set fuel s session) r1 w1 ending1 :=
    Ramp.grow_figures (.start hw) hgrow
  have hseries := Ramp.runIssues_series set fuel s hw
  have hissued := (Ramp.run_issued hw).ok h
  have hattempted := hissued.attempted
  obtain ⟨a, _, hsettled, -, hreport⟩ := Ramp.run_ledger hw h
  obtain ⟨-, -, hjoined⟩ := hreport _ rfl
  have hjoins : session'.world.joins = w1.joins := by
    rw [hworld]
    exact (Ramp.end_keeps (joins_lasting set w1.joins) (fun _ c h => close_joins h c)
      ⟨hended.dials, rfl⟩ hsettle hclose).2
  have hsamples : w3.takeJoins.1.length = w1.joins := hjoined.trans hjoins
  have htotal : session'.world.attempts =
      ((Ramp.runIssues set fuel s session).map Issue.size).sum := by
    rw [← length_attempted, hattempted, hseries.ids, List.length_range']
  have hcap : ∀ cap, s.maxClients = some cap → r1.population ≤ cap := by
    intro cap hmax
    have hcustody := hsettled.ledger.custody
    have hroom := Ramp.series_le hmax hseries (Nat.zero_le cap)
    have hall := joins_add_failures hcustody hsettled.noBatch.dials
    have hattempts := attempts_eq hcustody hsettled.noBatch.dials
    have hle := hended.le
    omega
  exact {
    batches := hended.batches.trans (Nat.zero_add _)
    sizes := by
      intro k x hx
      obtain ⟨hfirst, hsize⟩ := Ramp.series_sizes hseries hx
      exact ⟨hfirst.trans (Nat.zero_add _), (hseries.holds (List.mem_of_getElem? hx)).size, hsize⟩
    attempted := hattempted
    ids := by rw [hattempted, hseries.ids, htotal, List.range_eq_range']
    joins := hjoined
    idle := fun hnil => ⟨(hended.none hnil).1, hsamples.trans (hended.none hnil).2⟩
    population := fun x hx => hsamples.symm ▸ hended.last x hx
    cap := hcap
    capped := by
      intro hcapped
      have hcapped : ending = .capped := hcapped
      obtain ⟨cap, hmax, hfull⟩ := hended.capped (Ramp.settle_capped (hcapped ▸ hsettle))
      rw [hmax, Nat.le_antisymm hfull (hcap cap hmax)]
    messages := Ramp.run_messages hw h }

/-- Two batches of one. While the second one connects the client of the first fails, so the second
client has joined and is not counted. -/
theorem ramp_figures_noticed :
    ∃ session' r x w out f, Ramp.run { source := SplitMix.source #[] 0 } 40
        { batchSize := 1, payload := .fixed 0 } ⟨".", "r"⟩ { world := { network := {
          peers := [{ replies := [.echo, .hangup] }], rest := { connectDelay := 5000000 } } } } =
          .ok (session', .ok r) ∧
      (Ramp.runIssues { source := SplitMix.source #[] 0 } 40
        { batchSize := 1, payload := .fixed 0 } { world := { network := {
          peers := [{ replies := [.echo, .hangup] }], rest := { connectDelay := 5000000 } } } })[1]? =
          some x ∧
      session'.world.attempted = [0, 1] ∧ r.batches = 2 ∧ r.population = 1 ∧ r.joinSamples = 2 ∧
      x.first = 1 ∧ x.size = 1 ∧
      x.world.connectBatch { source := SplitMix.source #[] 0 } 40 x.first x.size true =
        .ok (w, out, some f) ∧
      r.population + out.connected.length = r.joinSamples ∧
      r.messageSamples = session'.world.events.countP Event.isEcho := by
  have hrun : ((Ramp.run { source := SplitMix.source #[] 0 } 40
      { batchSize := 1, payload := .fixed 0 } ⟨".", "r"⟩ { world := { network := {
        peers := [{ replies := [.echo, .hangup] }], rest := { connectDelay := 5000000 } } } }
      ).toOption.any fun x => x.1.world.attempts = 2 ∧ x.2.toOption.any fun r =>
        r.batches = 2 ∧ r.population = 1 ∧ r.joinSamples = 2) = true := by
    decide +kernel
  obtain ⟨⟨session', result⟩, h, hresult⟩ := toOption_any.1 hrun
  obtain ⟨hattempts, hreport⟩ := of_decide_eq_true hresult
  obtain ⟨r, rfl, hreport⟩ := toOption_any.1 hreport
  obtain ⟨hbatches, hpopulation, hjoins⟩ := of_decide_eq_true hreport
  have hfigures := ramp_figures ⟨rfl, rfl, rfl, rfl, rfl, rfl, rfl, rfl⟩ h
  have hlen := hfigures.batches.symm.trans hbatches
  obtain ⟨x, hlast⟩ := Option.ne_none_iff_exists'.1
    (mt List.getLast?_eq_none_iff.1 (List.ne_nil_of_length_eq_add_one hlen))
  have hx := List.getLast?_eq_getElem?.symm.trans hlast
  rw [hlen] at hx
  obtain ⟨hfirst, hsize, -⟩ := hfigures.sizes 1 x hx
  have hids : session'.world.attempted = [0, 1] := by rw [hfigures.ids, hattempts]; rfl
  obtain ⟨w, out, seen, hconnect, hcounts⟩ := hfigures.population x hlast
  cases seen with
  | none =>
    have hcounts : r.population = r.joinSamples := hcounts
    omega
  | some f =>
    exact ⟨session', r, x, w, out, f, h, hx, hids, hbatches, hpopulation, hjoins, hfirst, hsize,
      hconnect, hcounts, hfigures.messages⟩

end EchoLoad
