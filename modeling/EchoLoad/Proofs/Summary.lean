import EchoLoad.Proofs.Workload.Records
import EchoLoad.Run
/-!
The summary of a run and the files of the same run. They agree as long as the workload has a report
to sum up. If it has none the summary knows nothing of what the files hold. Main statement:
`summary_tells`.
-/

namespace EchoLoad

/-- **What a summary tells of the files**, by the result of the workload. After a report it has the
number of join latencies and, in a sweep, the phases on record. After a failed pool the file has a
line for each client that connected, and the summary says that there are none. After an output
error it says so too, whatever has been written. -/
def RunSummary.Tells (o : Output) (mode : Mode) (store : Store) (s : RunSummary) :
    Except RunError Unit → Prop
  | .ok () | .error (.echo _ _) =>
    o.Lines "join-lat" s.joinSamples store ∧ (mode = .throughput → o.Records s.phases store)
  | .error (.pool connected _) =>
    o.Lines "join-lat" connected store ∧ s.clients = connected ∧ s.joinSamples = 0 ∧ s.phases = []
  | .error (.output _) => s.joinSamples = 0 ∧ s.phases = []

variable {set : Setting} {fuel : Nat} {o : Output} {session session' : Session}

/-! ## The files of each workload -/

theorem Ramp.run_holds {s : RampSettings} {result : Except RunError RampReport}
    (h : run set fuel s o session = .ok (session', result)) :
    o.Holds session'.store (fun r => o.Lines "join-lat" r.joinSamples session'.store) result := by
  obtain ⟨⟨w1, r1, ending1⟩, -, h⟩ := bind_eq_ok.1 h
  obtain ⟨⟨w2, clients, ending⟩, -, h⟩ := bind_eq_ok.1 h
  obtain ⟨⟨w3, closed⟩, -, h⟩ := bind_eq_ok.1 h
  dsimp only at h
  split at h
  · cases h
    trivial
  · next session1 hjoins =>
    have hlines := Session.lines_of_writeSeries (by decide) hjoins
    split at h
    · cases h
      trivial
    · next session2 hmessages =>
      cases h
      obtain ⟨store, hstore, rfl⟩ := map_eq_ok.1 hmessages
      exact hlines.puts (by decide) (by decide) (by decide) (Store.write_puts hstore)

theorem Mixed.run_holds {s : MixedSettings} {result : Except RunError MixedReport}
    (hw : session.world.Fresh) (h : run set fuel s o session = .ok (session', result)) :
    o.Holds session'.store (fun r => o.Lines "join-lat" r.joinSamples session'.store) result := by
  obtain ⟨⟨session1, established⟩, hestablish, h⟩ := bind_eq_ok.1 h
  have hlines := Session.establish_holds hw hestablish
  cases established with
  | error e =>
    cases h
    cases e <;> exact hlines
  | ok pool =>
    obtain ⟨clients, joins⟩ := pool
    obtain ⟨w1, -, h⟩ := bind_eq_ok.1 h
    obtain ⟨⟨w2, clients2, failure⟩, -, h⟩ := bind_eq_ok.1 h
    dsimp only at h
    split at h
    · cases h
      trivial
    · next session2 hmessages =>
      obtain ⟨store, hstore, rfl⟩ := map_eq_ok.1 hmessages
      obtain ⟨⟨w3, n⟩, -, h⟩ := bind_eq_ok.1 h
      cases h
      exact hlines.1.puts (by decide) (by decide) (by decide) (Store.write_puts hstore)

/-- Once its pool is there a sweep fails only on output. -/
theorem Sweep.advance_error {s : SweepSettings} {sizes : List Nat} {p : Sweep} {e : RunError}
    (h : advance set fuel s o sizes p session = .ok (session', .error e)) :
    ∃ x, e = .output x := by
  have hturn : ∀ {size : Nat} {p : Sweep} {session session' : Session},
      turn set fuel s o size p session = .ok (session', .error e) → ∃ x, e = .output x := by
    intro size p session session' ht
    obtain ⟨w, -, ht⟩ := bind_eq_ok.1 ht
    dsimp only at ht
    split at ht
    · cases ht
    · obtain ⟨⟨w1, clients, summary, failure⟩, -, ht⟩ := bind_eq_ok.1 ht
      dsimp only at ht
      split at ht
      · next hrecord =>
        cases ht
        exact record_error (congrArg Prod.snd hrecord)
      · cases ht
  induction sizes generalizing p session with
  | nil => cases h
  | cons size sizes ih =>
    unfold advance at h
    split at h
    · cases h
    · next ht =>
      cases h
      exact hturn ht
    · cases h
    · exact ih h

theorem Sweep.run_holds {s : SweepSettings} {result : Except RunError SweepReport}
    (hw : session.world.Fresh) (h : run set fuel s o session = .ok (session', result)) :
    o.Holds session'.store (fun r => o.Lines "join-lat" r.joinSamples session'.store ∧
      o.Records r.phases session'.store) result := by
  cases result with
  | ok r =>
    have hfiled := run_filed hw h
    exact ⟨hfiled.joins, hfiled.throughput⟩
  | error e =>
    obtain ⟨⟨session1, established⟩, hestablish, h⟩ := bind_eq_ok.1 h
    have hlines := Session.establish_holds hw hestablish
    cases established with
    | error e =>
      cases h
      cases e <;> exact hlines
    | ok pool =>
      obtain ⟨clients, joins⟩ := pool
      dsimp only at h
      split at h
      · cases h
        trivial
      · obtain ⟨⟨session2, advanced⟩, hadvance, h⟩ := bind_eq_ok.1 h
        cases advanced with
        | error e =>
          cases h
          obtain ⟨x, rfl⟩ := Sweep.advance_error hadvance
          trivial
        | ok p =>
          obtain ⟨⟨w, n⟩, -, h⟩ := bind_eq_ok.1 h
          cases h

/-! ## The summary -/

/-- **A workload summed up** tells of the files what they hold, if a report does. -/
theorem RunSummary.conclude_tells {ρ : Type} {mode : Mode} {store : Store} {s : RunSummary}
    {take : RunSummary → ρ → RunSummary} {result : ρ → Except RunError Unit} {told : ρ → Prop}
    {finished : Except RunError ρ} (hjoins : s.joinSamples = 0) (hphases : s.phases = [])
    (h : o.Holds store told finished) (htake : ∀ r, told r → (take s r).Tells o mode store (.ok ()))
    (hresult : ∀ r e, result r = .error e → ∃ n x, e = .echo n x) :
    (s.conclude take result finished).1.Tells o mode store
      (s.conclude take result finished).2 := by
  unfold conclude
  cases finished with
  | error e =>
    cases e with
    | pool connected x => exact ⟨h, rfl, hjoins, hphases⟩
    | echo => exact h.elim
    | output x => exact ⟨hjoins, hphases⟩
  | ok r =>
    dsimp only
    split
    · exact htake r h
    · next e he =>
      obtain ⟨n, x, rfl⟩ := hresult r e he
      exact htake r h

theorem RunSummary.poolResult_error {pool : Nat} {failure : Option ClientError} {e : RunError}
    (h : poolResult pool failure = .error e) : ∃ n x, e = .echo n x := by
  cases failure with
  | none => cases h
  | some x =>
    cases h
    exact ⟨pool, x, rfl⟩

theorem Run.workload_tells {env : Surroundings} {c : Config} {s s' : RunSummary}
    {result : Except RunError Unit} (hw : session.world.Fresh) (hjoins : s.joinSamples = 0)
    (hphases : s.phases = [])
    (h : workload env fuel c o s session = .ok (session', s', result)) :
    s'.Tells o c.mode session'.store result := by
  -- What a workload left on disk is told of the pair that `conclude` makes of its report.
  have hpair : ∀ {session1 : Session} {concluded : RunSummary × Except RunError Unit},
      concluded.1.Tells o c.mode session1.store concluded.2 →
      (pure (session1, concluded) : Except Stop _) = .ok (session', s', result) →
      s'.Tells o c.mode session'.store result := by
    intro session1 concluded htells he
    cases he
    exact htells
  unfold workload at h
  split at h
  · next hmode =>
    obtain ⟨⟨session1, r⟩, hrun, h⟩ := bind_eq_ok.1 h
    exact hpair (RunSummary.conclude_tells hjoins hphases (Ramp.run_holds hrun)
      (fun r hr => ⟨hr, fun ht => by rw [hmode] at ht; cases ht⟩) fun r e he => by cases he) h
  · obtain ⟨⟨session1, r⟩, hrun, h⟩ := bind_eq_ok.1 h
    exact hpair (RunSummary.conclude_tells hjoins hphases (Sweep.run_holds hw hrun)
      (fun r hr => ⟨hr.1, fun _ => hr.2⟩) fun r e he => RunSummary.poolResult_error he) h
  · next hmode =>
    obtain ⟨⟨session1, r⟩, hrun, h⟩ := bind_eq_ok.1 h
    exact hpair (RunSummary.conclude_tells hjoins hphases (Mixed.run_holds hw hrun)
      (fun r hr => ⟨hr, fun ht => by rw [hmode] at ht; cases ht⟩)
      fun r e he => RunSummary.poolResult_error he) h

theorem RunSummary.Tells.written {mode : Mode} {s s' : RunSummary} {store store' : Store}
    {result : Except RunError Unit} (h : s.Tells o mode store result)
    (hs : s'.clients = s.clients ∧ s'.joinSamples = s.joinSamples ∧ s'.phases = s.phases)
    (hw : o.writeSummary s' store = .ok store') : s'.Tells o mode store' result := by
  obtain ⟨text, -, hwrite⟩ := bind_eq_ok.1 hw
  have hputs := Store.write_puts hwrite
  obtain ⟨hclients, hjoins, hphases⟩ := hs
  have hne : ∀ series, Output.tail series "csv" ≠ Output.tail "summary" "toml" := fun _ =>
    Output.tail_csv_ne_toml _ _
  have hlines : ∀ {n : Nat}, o.Lines "join-lat" n store → o.Lines "join-lat" n store' :=
    fun h => h.keep (by decide) (by decide) (by decide) (Ne.symm (hne _)) hputs
  have hrecords : ∀ {phases : List PhaseSummary}, o.Records phases store →
      o.Records phases store' := fun h => .of_text <|
    Output.readText_of_puts (by decide) (by decide) (by decide) (by decide) (Ne.symm (hne _)) hputs
      h.text
  rcases result with (⟨connected, x⟩ | ⟨n, x⟩ | x) | ⟨⟩
  · exact ⟨hlines h.1, hclients.trans h.2.1, hjoins.trans h.2.2.1, hphases.trans h.2.2.2⟩
  · exact ⟨hjoins ▸ hlines h.1, fun hmode => hphases ▸ hrecords (h.2 hmode)⟩
  · exact ⟨hjoins.trans h.1, hphases.trans h.2⟩
  · exact ⟨hjoins ▸ hlines h.1, fun hmode => hphases ▸ hrecords (h.2 hmode)⟩

/-- **Summary and files of a run.** Whenever a run has written its summary, what the summary tells
of the files is as `RunSummary.Tells` has it for the result of the workload. -/
theorem summary_tells (env : Surroundings) (fuel : Nat) (c : Config) {session : Session}
    {ended : RunEnd} {s : RunSummary} (hw : session.world.Fresh)
    (h : Run.run env fuel c session = .ok ended) (hs : ended.summary = some s) :
    ∃ result, ended.result = result.mapError .workload ∧
      s.Tells ⟨c.outDir, c.name⟩ c.mode ended.session.store result := by
  unfold Run.run at h
  split at h
  · cases h
    cases hs
  · split at h
    · cases h
      cases hs
    · next o store hcreate =>
      obtain ⟨store1, -, he⟩ := map_eq_ok.1 hcreate
      cases he
      obtain ⟨⟨session1, s1, result⟩, hworkload, h⟩ := bind_eq_ok.1 h
      have hw' : ({ session with store } : Session).world.Fresh := hw
      have htells := Run.workload_tells hw' rfl rfl hworkload
      dsimp only at h
      split at h
      · cases h
        cases hs
      · next store2 hwrite =>
        cases h
        cases hs
        exact ⟨result, rfl, htells.written ⟨rfl, rfl, rfl⟩ hwrite⟩

/-- Of two clients the second is refused. The first one's join latency is on file, and the summary
counts the client but not its latency. -/
theorem summary_tells_refused :
    ∃ ended s text, Run.run
        { resolver := { unknown := .fileNotFound }, source := SplitMix.source #[] 0 } 40
        (.overlay {} {
          run := { name := "r", outDir := ".", batchSize := 1 }, client := { handshake := false }
          throughput := { clients := 2, sizes := [0], rounds := some 1 } })
        { world := { network := {
          peers := [{}], rest := { refuse := some ⟨.connectionRefused, "refused"⟩ } } } }
        = .ok ended ∧
      ended.summary = some s ∧ s.clients = 1 ∧ s.joinSamples = 0 ∧
      ended.session.store.readText (Output.path ⟨".", "r"⟩ "join-lat" "csv") = .ok text ∧
      lineCount text = 1 := by
  have hrun : ((Run.run
      { resolver := { unknown := .fileNotFound }, source := SplitMix.source #[] 0 } 40
      (.overlay {} {
        run := { name := "r", outDir := ".", batchSize := 1 }, client := { handshake := false }
        throughput := { clients := 2, sizes := [0], rounds := some 1 } })
      { world := { network := {
        peers := [{}], rest := { refuse := some ⟨.connectionRefused, "refused"⟩ } } } }
      ).toOption.any fun ended => (ended.summary.any fun s => s.clients = 1) ∧
        ended.result = .error (.workload (.pool 1 (.connect ⟨.connectionRefused, "refused"⟩)))) =
        true := by
    decide +kernel
  obtain ⟨ended, h, hresult⟩ := toOption_any.1 hrun
  obtain ⟨hsummary, hresult⟩ := of_decide_eq_true hresult
  obtain ⟨s, hs, hclients⟩ := (Option.any_eq_true _ _).1 hsummary
  obtain ⟨result, hended, htells⟩ :=
    summary_tells _ _ _ ⟨rfl, rfl, rfl, rfl, rfl, rfl, rfl, rfl⟩ h hs
  cases result with
  | ok => rw [hended] at hresult; cases hresult
  | error e =>
    rw [hended] at hresult
    cases hresult
    obtain ⟨⟨text, hread, hlines⟩, -, hjoins, -⟩ := htells
    exact ⟨ended, s, text, h, hs, of_decide_eq_true hclients, hjoins, hread, hlines⟩

end EchoLoad
