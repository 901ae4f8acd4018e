import EchoLoad.Proofs.Quota
import EchoLoad.Proofs.Workload.Figures
import EchoLoad.Proofs.Workload.Latched
import EchoLoad.Proofs.Workload.Members
import EchoLoad.Proofs.Workload.Unused
/-!
The accounts of a mixed run. Each client of the pool does as many rounds as were drawn for it, or
fewer if the run was cut off, and samples, counters and files agree on them. Main statement:
`run_accounts`.
-/

namespace EchoLoad

/-! ## Numbers drawn -/

/-- Numbers that are drawn from a source one after the other, each between `lo` and `hi`. -/
inductive Source.Draws (lo hi : Nat) : Source → List Nat → Prop
  | nil {s : Source} : Draws lo hi s []
  | cons {s s' : Source} {n : Nat} {counts : List Nat} : s.uniform lo hi = some (n, s') →
      Draws lo hi s' counts → Draws lo hi s (n :: counts)

theorem Source.Draws.mem {lo hi : Nat} {s : Source} {counts : List Nat}
    (h : s.Draws lo hi counts) : ∀ n ∈ counts, lo ≤ n ∧ n ≤ hi := by
  induction h with
  | nil => nofun
  | cons hn _ ih =>
    intro m hm
    rcases List.mem_cons.1 hm with rfl | hm
    · exact uniform_mem hn
    · exact ih m hm

theorem Client.Numbered.id_eq {clients : List Client} (h : Client.Numbered clients) {i : Nat}
    {c : Client} (hc : clients[i]? = some c) : c.id = i := by
  have hid : (clients.map Client.id)[i]? = some c.id := by rw [List.getElem?_map, hc]; rfl
  obtain ⟨hi, -⟩ := List.getElem?_eq_some_iff.1 hc
  rw [h, List.getElem?_range hi] at hid
  exact (Option.some.inj hid).symm

theorem Pooled.restart {o : ClientOptions} {a : Account} {w : World} (h : Pooled o a w) :
    Pooled o a { w with active := !w.stopped } :=
  ⟨h.ledger.congr h.ledger.custody rfl rfl rfl rfl rfl,
    ⟨h.noBatch.dials, h.noBatch.connected, h.noBatch.refusals⟩, h.workers, h.failures, h.refused,
    h.closed⟩

namespace Event

theorem rounds_idle {w w' : World} (h : w.Idle w') (n : Nat) :
    starts n w'.events = starts n w.events ∧ echoes n w'.events = echoes n w.events := by
  obtain ⟨es, hevents, hnone⟩ := h.events
  rw [hevents]
  refine rounds_append (fun hmem => ?_) fun hmem => ?_
  · exact Bool.noConfusion (hnone _ hmem)
  · exact Bool.noConfusion (hnone _ hmem)

end Event

/-! ## Samples -/

theorem World.Sampled.takeJoins {w : World} (h : w.Sampled) : w.takeJoins.2.Sampled :=
  (congrArg List.length (List.append_nil w.sink.collect.messages)).trans h

theorem Session.establish_sampled {set : Setting} {fuel target batch joins : Nat} {o : Output}
    {clients : List Client} {session session' : Session} (hw : session.world.Fresh)
    (h : session.establish set fuel target batch o = .ok (session', .ok (clients, joins))) :
    session'.world.Sampled := by
  obtain ⟨⟨w, pool⟩, hpool, h⟩ := bind_eq_ok.1 h
  have hstart : session.world.Sampled := by
    simp [World.Sampled, World.events, hw.sink, hw.journal, Sink.collect]
  have hgrown : w.Sampled :=
    (World.growPool_waits (World.sampled_lasting set).anyPlan (fun _ h => h)
      (fun _ _ _ h => h.dialBatch set _ _) hstart).ok hpool
  dsimp only at h
  split at h
  · obtain ⟨⟨w1, n⟩, -, h⟩ := bind_eq_ok.1 h
    dsimp only at h
    split at h <;> cases h
  · split at h
    · cases h
    · next s1 hwrite =>
      have hworld := Session.writeSeries_world hwrite
      cases h
      rw [hworld]
      exact hgrown.takeJoins

namespace Mixed

variable {set : Setting} {fuel : Nat} {s : MixedSettings} {o : Output} {session session' : Session}
  {w w' : World} {clients back : List Client} {counts : List Nat}

/-- What is planned for each client when these numbers of rounds were drawn. -/
def quota (s : MixedSettings) (counts : List Nat) (n : Nat) : EchoPlan :=
  { payload := s.payload, rounds := counts[n]? }

/-! ## The crew -/

def loops (set : Setting) (s : MixedSettings) (w : World) : List Client → List Nat → List Worker :=
  List.zipWith fun c n => w.newLoop set { payload := s.payload, rounds := some n } c

theorem spawnAll_draws {source : Source} (h : spawnAll set s clients source w = .ok w') :
    ∃ counts, source.Draws 1 (max s.maxRounds 1) counts ∧ counts.length = clients.length ∧
      w' = { w with workers := w.workers ++ loops set s w clients counts } := by
  induction clients generalizing source w with
  | nil =>
    cases h
    exact ⟨[], .nil, rfl, by simp [loops]⟩
  | cons c clients ih =>
    unfold spawnAll at h
    split at h
    · cases h
    · next n source' hdraw =>
      obtain ⟨counts, hcounts, hlen, rfl⟩ := ih h
      refine ⟨n :: counts, .cons hdraw hcounts, congrArg (· + 1) hlen, ?_⟩
      simp [World.spawn, loops, World.newLoop]

/-- **The crew of a mixed run begins within its quotas.** -/
theorem spawnAll_quotas {joins : Nat} {source : Source} (hw : session.world.Fresh)
    (hidle : session.world.Idle w) (h : Pooled set.options { held := clients, joins } w)
    (hactive : w.active = !w.stopped) (hnumbered : Client.Numbered clients)
    (hunused : ∀ c ∈ clients, c.Unused) (hspawn : spawnAll set s clients source w = .ok w') :
    ∃ counts, source.Draws 1 (max s.maxRounds 1) counts ∧ counts.length = clients.length ∧
      w'.workers.length = clients.length ∧
      Quotas set.options (quota s counts) session.world [] w' := by
  have hledger : Ledger set.options { held := clients ++ [], joins } w := by
    rw [List.append_nil]
    exact h.ledger
  obtain ⟨hl, hq⟩ := spawnAll_ledger (a := { joins }) hledger h.noBatch (h.isOpen rfl) hspawn
  obtain ⟨counts, hcounts, hlen, rfl⟩ := spawnAll_draws hspawn
  have hnone : ∀ n, Event.starts n w.events = 0 ∧ Event.echoes n w.events = 0 := by
    intro n
    have hfresh : session.world.events = [] := by rw [World.events, hw.journal]; rfl
    have hrounds := Event.rounds_idle hidle n
    rw [hfresh] at hrounds
    exact hrounds
  rw [h.workers, List.nil_append] at hl hq ⊢
  have hcrew : ∀ k ∈ loops set s w clients counts, k.stage = .ready ∧
      k.Keeps (quota s counts) w.events := by
    intro k hk
    obtain ⟨i, hi⟩ := List.mem_iff_getElem?.1 hk
    obtain ⟨c, n, hc, hn, rfl⟩ := List.getElem?_zipWith_eq_some.1 hi
    obtain ⟨hrounds, hbytes⟩ := hunused c (List.mem_of_getElem? hc)
    have hid : c.id = i := hnumbered.id_eq hc
    obtain ⟨hstarts, hechoes⟩ := hnone c.id
    refine ⟨rfl, ?_, hrounds, .of_unused hrounds hbytes, hechoes, Nat.zero_le _, fun _ => hstarts,
      fun n _ => hstarts.trans_le (Nat.zero_le n)⟩
    rw [quota, Worker.id, World.newLoop_client, hid, hn]
    rfl
  refine ⟨counts, hcounts, hlen, by simp [loops, hlen], hl.custody, hq.dials, hidle.signals,
    fun k hk => (hcrew k hk).2, by simp, fun hu => ?_, fun _ => ⟨fun k hk hdone => ?_, by simp⟩⟩
  · have hstopped : w.stopped = false := hu.stopped
    exact ⟨by rw [hactive, hstopped]; rfl, h.failures rfl⟩
  · cases (hcrew k hk).1.symm.trans hdone

/-! ## The whole run -/

theorem run_lines {r : MixedReport} (h : run set fuel s o session = .ok (session', .ok r)) :
    o.Lines "msg-lat" r.messageSamples session'.store := by
  obtain ⟨⟨session1, established⟩, -, h⟩ := bind_eq_ok.1 h
  cases established with
  | error e => cases h
  | ok pool =>
    obtain ⟨w1, -, h⟩ := bind_eq_ok.1 h
    obtain ⟨⟨w2, back, failure⟩, -, h⟩ := bind_eq_ok.1 h
    dsimp only at h
    split at h
    · cases h
    · next session2 hwrite =>
      obtain ⟨⟨w3, n⟩, -, h⟩ := bind_eq_ok.1 h
      have hlines := Session.lines_of_writeSeries (by decide) hwrite
      cases h
      exact hlines

theorem totals_sized {size : PayloadSize} {lo hi : Nat} (h : ∀ c ∈ back, c.Sized size)
    (hsize : ∀ n, size.Allows n → lo ≤ n ∧ n ≤ hi) :
    Client.totalRounds back * Frame.size lo ≤ Client.totalBytes back ∧
      Client.totalBytes back ≤ Client.totalRounds back * Frame.size hi := by
  rw [Client.totalRounds_eq, Client.totalBytes_eq, ← List.sum_map_mul_right,
    ← List.sum_map_mul_right]
  exact ⟨List.sum_le_sum fun c hc => (h c hc lo hi hsize).1,
    List.sum_le_sum fun c hc => (h c hc lo hi hsize).2⟩

/-- **The crew of a mixed run with a report.** -/
theorem run_crew {r : MixedReport} (hw : session.world.Fresh)
    (h : run set fuel s o session = .ok (session', .ok r)) :
    ∃ counts back, set.source.Draws 1 (max s.maxRounds 1) counts ∧ counts.length = r.pool ∧
      back.length = r.pool ∧ Client.Numbered back ∧
      r.rounds = Client.totalRounds back ∧ r.totalBytes = Client.totalBytes back ∧
      r.messageSamples = r.rounds ∧
      (∀ c ∈ back, c.Kept (quota s counts) session'.world.events) ∧
      (r.failure = none → r.interrupted = false → (∀ x ∈ session.world.signals, x.2 ≠ .cancel) →
        ∀ c ∈ back, c.Spent (quota s counts)) := by
  obtain ⟨hreport, -⟩ := run_ledger hw h
  obtain ⟨-, hfailure⟩ := hreport r rfl
  obtain ⟨session1, clients, joins, w1, w2, back, failure, n, hestablish, hspawn, hjoin, hclose,
    rfl⟩ := run_parts h
  have hpool := (Session.establish_ledger hw hestablish).1 clients joins rfl
  have hback := rounds_ledger hpool hspawn hjoin
  have hunused : ∀ c ∈ clients, c.Unused :=
    (Session.establish_keeps (World.Unused.kept set).anyPlan (fun _ h => h.connected)
      ⟨by simp [hw.dials], by simp [hw.connected]⟩ hestablish).2
  obtain ⟨hnumbered, hlen⟩ := Session.establish_numbered hw hestablish
  have hbefore : session.world.Idle session1.world := Session.establish_idle hw.workers hestablish
  obtain ⟨counts, hcounts, hcount, hcrew, hquotas⟩ :=
    spawnAll_quotas (w := { session1.world with active := !session1.world.stopped }) hw
      (hbefore.trans (.of_eq rfl rfl hpool.workers)) hpool.restart rfl hnumbered hunused hspawn
  obtain ⟨hkept, hspent⟩ := World.joinAll_quotas hquotas hjoin
  obtain ⟨ks, hw1, -, -⟩ := spawnAll_ok hspawn
  have hpopulation : back.length = clients.length := (World.joinAll_length hjoin).trans hcrew
  have hcustody : Custody set.options back w2 := hback.ledger.custody.of_views fun _ => rfl
  obtain ⟨hnumbered', hlen'⟩ := World.joinAll_numbered hcustody hjoin
    (by rw [hw1, hpopulation]; exact hlen.symm)
  have hsampled : w2.Sampled := by
    have hstart : w1.Sampled := by
      rw [hw1]
      exact Session.establish_sampled hw hestablish
    exact (World.joinAll_leaves (World.sampled_lasting set).anyPlan hstart).ok hjoin
  have hafter : w2.Idle session'.world := by
    have hclosed := World.closeAll_idle hback.workers hclose
    exact ⟨hclosed.events, hclosed.signals, hclosed.workers⟩
  refine ⟨counts, back, hcounts, hcount.trans hpopulation.symm, rfl, hnumbered', rfl, rfl, ?_,
    fun c hc => (hkept c hc).congr (Event.rounds_idle hafter c.id),
    fun hnone hinterrupted hsignals => hspent ⟨?_, ?_, hsignals⟩⟩
  · have hechoes := Event.countP_isEcho fun e he => hlen' ▸ hcustody.client_lt he
    rw [← hnumbered', List.map_map] at hechoes
    refine (hsampled.trans hechoes).trans ?_
    rw [Client.totalRounds_eq]
    exact congrArg List.sum (List.map_congr_left fun c hc => (hkept c hc).echoes)
  · have hclean : w2.failedRounds = [] := by
      have hrounds : session'.world.failedRounds = w2.failedRounds := (hback.settle hclose).2
      rw [hnone, hrounds] at hfailure
      exact List.head?_eq_none_iff.1 (Option.map_eq_none_iff.1 hfailure.symm)
    exact fun e he => List.filterMap_eq_nil_iff.1 hclean e (List.mem_reverse.2 he)
  · refine Bool.eq_false_iff.2 fun hstopped => ?_
    have hlatched : session'.world.stopped = true := World.closeAll_stopped hclose hstopped
    exact Bool.noConfusion (hlatched.symm.trans hinterrupted)

/-- **The accounts of a mixed run.** However its clients interleave, fail or are interrupted, the
samples counted and the lines of their file are the rounds reported, and the bytes reported are
those of as many frames, with payloads of the lengths that are allowed. For each client a number of
rounds was drawn, and it never began more. If no client failed and no interrupt was latched each one
did just that number; a bare cancellation, which is no interrupt, would end the run without a
trace. -/
theorem run_accounts {r : MixedReport} (hw : session.world.Fresh)
    (h : run set fuel s o session = .ok (session', .ok r)) :
    r.messageSamples = r.rounds ∧ o.Lines "msg-lat" r.rounds session'.store ∧
    (∀ lo hi, (∀ n, s.payload.Allows n → lo ≤ n ∧ n ≤ hi) →
      r.rounds * (4 + lo) ≤ r.totalBytes ∧ r.totalBytes ≤ r.rounds * (4 + hi)) ∧
    ∃ counts, set.source.Draws 1 (max s.maxRounds 1) counts ∧ counts.length = r.pool ∧
      r.rounds = ((List.range r.pool).map (Event.echoes · session'.world.events)).sum ∧
      (∀ i n, counts[i]? = some n → 1 ≤ n ∧ n ≤ max s.maxRounds 1 ∧
        Event.echoes i session'.world.events ≤ Event.starts i session'.world.events ∧
        Event.starts i session'.world.events ≤ n) ∧
      (r.failure = none → r.interrupted = false → (∀ x ∈ session.world.signals, x.2 ≠ .cancel) →
        (∀ i n, counts[i]? = some n → Event.echoes i session'.world.events = n) ∧
        r.pool ≤ r.rounds ∧ r.rounds ≤ r.pool * max s.maxRounds 1) := by
  obtain ⟨counts, back, hcounts, hcount, hpool, hnumbered, hrounds, hbytes, hsamples, hkept,
    hspent⟩ := run_crew hw h
  have hlines := run_lines h
  rw [hsamples] at hlines
  have hclient : ∀ {i n}, counts[i]? = some n →
      ∃ c ∈ back, c.id = i ∧ (quota s counts c.id).rounds = some n := by
    intro i n hn
    obtain ⟨hi, -⟩ := List.getElem?_eq_some_iff.1 hn
    obtain ⟨c, hc⟩ : ∃ c, back[i]? = some c :=
      ⟨_, List.getElem?_eq_getElem (hpool.symm ▸ hcount ▸ hi)⟩
    have hid : c.id = i := hnumbered.id_eq hc
    exact ⟨c, List.mem_of_getElem? hc, hid, hid.symm ▸ hn⟩
  have hdrawn : ∀ c ∈ back, ∃ n, (quota s counts c.id).rounds = some n ∧ 1 ≤ n ∧
      n ≤ max s.maxRounds 1 := by
    intro c hc
    obtain ⟨i, hi⟩ := List.mem_iff_getElem?.1 hc
    obtain ⟨hlt, -⟩ := List.getElem?_eq_some_iff.1 hi
    obtain ⟨n, hn⟩ : ∃ n, counts[i]? = some n :=
      ⟨_, List.getElem?_eq_getElem (hcount.symm ▸ hpool ▸ hlt)⟩
    have hplan : (quota s counts c.id).rounds = some n := by
      rw [hnumbered.id_eq hi]
      exact hn
    exact ⟨n, hplan, hcounts.mem n (List.mem_of_getElem? hn)⟩
  have hechoes : back.map Client.rounds =
      (List.range r.pool).map (Event.echoes · session'.world.events) := by
    rw [← hpool, ← hnumbered, List.map_map]
    exact List.map_congr_left fun c hc => (hkept c hc).echoes.symm
  refine ⟨hsamples, hlines, fun lo hi hsize => ?_, counts, hcounts, hcount, ?_, ?_, ?_⟩
  · rw [hrounds, hbytes]
    exact totals_sized (fun c hc => (hkept c hc).sized) hsize
  · rw [hrounds, Client.totalRounds_eq, hechoes]
  · intro i n hn
    obtain ⟨c, hc, rfl, hplan⟩ := hclient hn
    obtain ⟨hleast, hmost⟩ := hcounts.mem n (List.mem_of_getElem? hn)
    exact ⟨hleast, hmost, (hkept c hc).echoes.trans_le (hkept c hc).begun,
      (hkept c hc).within n hplan⟩
  · intro hnone hinterrupted hsignals
    have hdone := hspent hnone hinterrupted hsignals
    have hrange : ∀ x ∈ back.map Client.rounds, 1 ≤ x ∧ x ≤ max s.maxRounds 1 := by
      intro x hx
      obtain ⟨c, hc, rfl⟩ := List.mem_map.1 hx
      obtain ⟨n, hn, hrange⟩ := hdrawn c hc
      exact hdone c hc n hn ▸ hrange
    refine ⟨fun i n hn => ?_, ?_, ?_⟩
    · obtain ⟨c, hc, rfl, hplan⟩ := hclient hn
      exact (hkept c hc).echoes.trans (hdone c hc n hplan)
    · have hle := List.card_nsmul_le_sum _ 1 fun x hx => (hrange x hx).1
      rw [List.length_map, hpool, smul_eq_mul, Nat.mul_one] at hle
      rwa [hrounds, Client.totalRounds_eq]
    · have hle := List.sum_le_card_nsmul _ _ fun x hx => (hrange x hx).2
      rw [List.length_map, hpool, smul_eq_mul] at hle
      rwa [hrounds, Client.totalRounds_eq]

/-- Of a range of `2 ^ 64` numbers the word itself tells which one is drawn. A client is to do three
rounds with empty payloads, and so it does. -/
theorem run_accounts_three :
    ∃ session' r, run { source := SplitMix.source #[2] 0 } 60
        { clients := 1, batchSize := 1, payload := .fixed 0, maxRounds := 2 ^ 64 } ⟨".", "r"⟩
        { world := {} } = .ok (session', .ok r) ∧
      (r.pool, r.rounds, r.messageSamples, r.totalBytes) = (1, 3, 3, 12) ∧
      Output.Lines ⟨".", "r"⟩ "msg-lat" r.rounds session'.store ∧
      r.rounds * (4 + 0) ≤ r.totalBytes ∧ r.totalBytes ≤ r.rounds * (4 + 0) ∧
      ∃ counts, (SplitMix.source #[2] 0).Draws 1 (2 ^ 64) counts ∧ counts.length = r.pool ∧
        ∀ i n, counts[i]? = some n → Event.echoes i session'.world.events = n := by
  have hrun : ((run { source := SplitMix.source #[2] 0 } 60
      { clients := 1, batchSize := 1, payload := .fixed 0, maxRounds := 2 ^ 64 } ⟨".", "r"⟩
      { world := {} }).toOption.any fun x => x.2.toOption.any fun r =>
        (r.pool, r.rounds, r.messageSamples, r.totalBytes) = (1, 3, 3, 12) ∧ r.failure = none ∧
          r.interrupted = false) = true := by
    decide +kernel
  obtain ⟨⟨session', result⟩, h, hresult⟩ := toOption_any.1 hrun
  obtain ⟨r, rfl, hfigures⟩ := toOption_any.1 hresult
  obtain ⟨hfigures, hnone, hinterrupted⟩ := of_decide_eq_true hfigures
  have hfresh : ({} : World).Fresh := ⟨rfl, rfl, rfl, rfl, rfl, rfl, rfl, rfl⟩
  obtain ⟨-, hlines, hbytes, counts, hcounts, hlen, -, -, hclean⟩ := run_accounts hfresh h
  obtain ⟨hleast, hmost⟩ := hbytes 0 0 fun n hn => ⟨Nat.zero_le n, Nat.le_of_eq hn⟩
  exact ⟨session', r, h, hfigures, hlines, hleast, hmost, counts, hcounts, hlen,
    (hclean hnone hinterrupted (by nofun)).1⟩

end Mixed

end EchoLoad
