import EchoLoad.Proofs.PhaseRecords
import EchoLoad.Proofs.Workload.Established
import EchoLoad.Proofs.Workload.PhaseRuns
/-!
The files of a sweep, phase by phase. The throughput file has a record of every phase. The message
latencies of a phase replace those of an earlier phase of the same size, so what is kept for a size
is the last phase of that size. Main statements: `record_filed`, `advance_filed` and
`latencies_of_last_phase`.
-/

namespace EchoLoad.Sweep

def lastOf (size : Nat) (phases : List PhaseSummary) : Option PhaseSummary :=
  phases.reverse.find? (·.size = size)

/-- What the files of a sweep hold after some phases. -/
structure Filed (o : Output) (joins : Nat) (phases : List PhaseSummary) (s : Store) : Prop where
  joins : o.Lines "join-lat" joins s
  throughput : o.Records phases s
  latencies : ∀ size p, lastOf size phases = some p → o.Lines s!"msg-lat-{size}" p.samples s

variable {set : Setting} {fuel : Nat} {s : SweepSettings} {o : Output}

theorem lastOf_append (size : Nat) (phases : List PhaseSummary) (p : PhaseSummary) :
    lastOf size (phases ++ [p]) = if p.size = size then some p else lastOf size phases := by
  by_cases h : p.size = size <;> simp [lastOf, h]

theorem exists_lastOf {size : Nat} {phases : List PhaseSummary} (h : ∃ q ∈ phases, q.size = size) :
    ∃ p, lastOf size phases = some p := by
  obtain ⟨q, hq, hqs⟩ := h
  refine Option.isSome_iff_exists.1 (List.find?_isSome.2 ⟨q, List.mem_reverse.2 hq, ?_⟩)
  exact decide_eq_true hqs

theorem lastOf_split {size : Nat} {phases : List PhaseSummary} {p : PhaseSummary}
    (h : lastOf size phases = some p) :
    ∃ before after, phases = before ++ p :: after ∧ p.size = size ∧
      ∀ q ∈ after, q.size ≠ size := by
  obtain ⟨hp, later, earlier, hsplit, hlater⟩ := List.find?_eq_some_iff_append.1 h
  refine ⟨earlier.reverse, later.reverse, ?_, of_decide_eq_true hp, fun q hq => ?_⟩
  · have hreverse := congrArg List.reverse hsplit
    simpa using hreverse
  · have hne := hlater q (List.mem_reverse.1 hq)
    simpa using hne

theorem sum_samples_split {size : Nat} {p : PhaseSummary} {after : List PhaseSummary}
    (before : List PhaseSummary) (hp : p.size = size) (hafter : ∀ q ∈ after, q.size ≠ size) :
    (((before ++ p :: after).filter (·.size = size)).map (·.samples)).sum =
      ((before.filter (·.size = size)).map (·.samples)).sum + p.samples := by
  have hnone : after.filter (·.size = size) = [] :=
    List.filter_eq_nil_iff.2 fun q hq => by simpa using hafter q hq
  simp [hp, hnone]

theorem sum_samples_eq_zero {size : Nat} {phases : List PhaseSummary} :
    ((phases.filter (·.size = size)).map (·.samples)).sum = 0 ↔
      ∀ q ∈ phases, q.size = size → q.samples = 0 := by
  rw [List.sum_eq_zero_iff, List.forall_mem_map]
  simp

/-! ## Written down -/

/-- **All that writing a phase down has done.** -/
theorem record_ok {p : PhaseSummary} {session session' : Session}
    (h : record o p session = (session', .ok ())) :
    ∃ store, o.writeSeries s!"msg-lat-{p.size}"
        (session.world.takeMessages.1.map Duration.seconds) session.store = .ok store ∧
      o.appendThroughput p.size p.bytes p.recordedTime store = .ok session'.store ∧
      session'.world = session.world.takeMessages.2 := by
  unfold record at h
  dsimp only at h
  split at h
  · cases h
  · next session1 hwrite =>
    obtain ⟨store, hstore, rfl⟩ := map_eq_ok.1 hwrite
    split at h
    · cases h
    · next store' happend =>
      cases h
      exact ⟨store, hstore, happend, rfl⟩

/-- **One phase more is in the files.** -/
theorem record_filed {joins : Nat} {phases : List PhaseSummary} {p : PhaseSummary}
    (session : Session) {session' : Session} (h : Filed o joins phases session.store)
    (hsamples : p.samples = session.world.takeMessages.1.length)
    (hp : record o p session = (session', .ok ())) :
    Filed o joins (phases ++ [p]) session'.store := by
  obtain ⟨store, hwrite, happend, -⟩ := record_ok hp
  have hplain := Output.plain_latencies p.size
  have hputs := Store.write_puts hwrite
  have hputs' := Store.append_puts happend
  have hjoins : s!"msg-lat-{p.size}" ≠ "join-lat" := Output.latencies_ne (by decide) _
  have hthroughput : s!"msg-lat-{p.size}" ≠ "throughput" := Output.latencies_ne (by decide) _
  have hkeep : ∀ {b : String} {n : Nat}, Output.Plain b → s!"msg-lat-{p.size}" ≠ b →
      "throughput" ≠ b → o.Lines b n session.store → o.Lines b n session'.store :=
    fun hb hne hne' hl => (hl.puts hplain hb hne hputs).puts (by decide) hb hne' hputs'
  refine ⟨hkeep (by decide) hjoins (by decide) h.joins, ?_, fun size q hq => ?_⟩
  · refine .of_text ?_
    rw [records_append]
    refine Store.append_readText ?_ happend
    exact Output.readText_of_puts hplain (by decide) (by decide) (by decide)
      (mt Output.tail_csv_inj.1 hthroughput) hputs h.throughput.text
  · rw [lastOf_append] at hq
    split at hq
    · next hsize =>
      cases hq
      subst hsize
      have hlines := Output.lines_of_writeSeries hplain hwrite
      rw [List.length_map, ← hsamples] at hlines
      exact hlines.puts (by decide) hplain (Ne.symm hthroughput) hputs'
    · next hsize =>
      exact hkeep (Output.plain_latencies size) (mt Output.latencies_inj.1 hsize)
        (Ne.symm (Output.latencies_ne (by decide) _)) (h.latencies size q hq)

theorem turn_filed {joins size : Nat} {p p' : Sweep} {more : Bool} {session session' : Session}
    (h : Filed o joins p.phases session.store)
    (ht : turn set fuel s o size p session = .ok (session', .ok (p', more))) :
    Filed o joins p'.phases session'.store := by
  obtain ⟨w, -, ⟨-, rfl, rfl, -⟩ | ⟨ph, -, -, -, hruns, -, hrecord, rfl, -⟩⟩ := turn_ok ht
  · exact h
  · obtain ⟨-, -, -, hsamples⟩ := phase_numbers hruns
    exact record_filed { session with world := ph.after } h hsamples hrecord

/-- **Every phase of a sweep is in the files.** -/
theorem advance_filed {joins : Nat} {sizes : List Nat} {p p' : Sweep} (session : Session)
    {session' : Session} (h : Filed o joins p.phases session.store)
    (hp : advance set fuel s o sizes p session = .ok (session', .ok p')) :
    Filed o joins p'.phases session'.store := by
  induction sizes generalizing p session with
  | nil =>
    cases hp
    exact h
  | cons size sizes ih =>
    unfold advance at hp
    split at hp
    · cases hp
    · cases hp
    · next ht =>
      cases hp
      exact turn_filed h ht
    · next ht => exact ih _ (turn_filed h ht) hp

/-! ## The files of a whole sweep -/

/-- **The files of a sweep with a report.** -/
theorem run_filed {session session' : Session} {r : SweepReport} (hw : session.world.Fresh)
    (h : run set fuel s o session = .ok (session', .ok r)) :
    Filed o r.joinSamples r.phases session'.store := by
  obtain ⟨session1, clients, joins, store, session2, p, w, n, hestablish, hstart, hadvance, -, rfl,
    rfl⟩ := run_ok h
  obtain ⟨hjoins, -⟩ := Session.establish_holds hw hestablish
  have hfiled : Filed o joins [] store := by
    refine ⟨hjoins.puts (by decide) (by decide) (by decide) (Store.write_puts hstart), ?_, ?_⟩
    · exact .of_text (Store.write_readText (Output.path_getLast? (by decide) (by decide)) hstart)
    · intro size q hq
      cases hq
  show Filed o joins p.phases session2.store
  exact advance_filed (p := { clients }) { session1 with store } hfiled hadvance

/-- **What is kept of the samples of a size.** The file of message latencies of a size has those of
the last phase of that size, and so all of them only if no earlier phase of it counted any. -/
theorem latencies_of_last_phase {session session' : Session} {r : SweepReport} {size : Nat}
    (hw : session.world.Fresh) (h : run set fuel s o session = .ok (session', .ok r))
    (hsize : ∃ q ∈ r.phases, q.size = size) :
    ∃ before p after text, r.phases = before ++ p :: after ∧ p.size = size ∧
      (∀ q ∈ after, q.size ≠ size) ∧
      session'.store.readText (o.path s!"msg-lat-{size}" "csv") = .ok text ∧
      lineCount text = p.samples ∧
      (lineCount text = ((r.phases.filter (·.size = size)).map (·.samples)).sum ↔
        ∀ q ∈ before, q.size = size → q.samples = 0) := by
  have hfiled := run_filed hw h
  obtain ⟨p, hlast⟩ := exists_lastOf hsize
  obtain ⟨text, hread, hlines⟩ := hfiled.latencies size p hlast
  obtain ⟨before, after, hphases, hp, hafter⟩ := lastOf_split hlast
  refine ⟨before, p, after, text, hphases, hp, hafter, hread, hlines, ?_⟩
  rw [hlines, hphases, sum_samples_split before hp hafter, ← sum_samples_eq_zero]
  omega

/-- A client does one round in each of two phases of one size. One of the two samples is lost. -/
theorem latencies_of_last_phase_repeated :
    ∃ session' r text, run { source := SplitMix.source #[] 0 } 40
        { clients := 1, batchSize := 1, sizes := [0, 0], phaseEnd := .rounds 1 } ⟨".", "r"⟩
        { world := {} } = .ok (session', .ok r) ∧
      r.phases.map (fun p => (p.size, p.samples)) = [(0, 1), (0, 1)] ∧
      session'.store.readText (Output.path ⟨".", "r"⟩ s!"msg-lat-{0}" "csv") = .ok text ∧
      lineCount text = 1 := by
  have hrun : ((run { source := SplitMix.source #[] 0 } 40
      { clients := 1, batchSize := 1, sizes := [0, 0], phaseEnd := .rounds 1 } ⟨".", "r"⟩
      { world := {} }).toOption.any fun x => x.2.toOption.any fun r =>
        r.phases.map (fun p => (p.size, p.samples)) = [(0, 1), (0, 1)]) = true := by
    decide +kernel
  obtain ⟨⟨session', result⟩, h, hresult⟩ := toOption_any.1 hrun
  obtain ⟨r, rfl, hphases⟩ := toOption_any.1 hresult
  have hphases := of_decide_eq_true hphases
  have hall : ∀ q ∈ r.phases, q.size = 0 ∧ q.samples = 1 := by
    intro q hq
    have hmem := List.mem_map_of_mem (f := fun p : PhaseSummary => (p.size, p.samples)) hq
    rw [hphases] at hmem
    simpa using hmem
  have hfresh : ({} : World).Fresh := ⟨rfl, rfl, rfl, rfl, rfl, rfl, rfl, rfl⟩
  have hsize : ∃ q ∈ r.phases, q.size = 0 := by
    cases hr : r.phases with
    | nil => rw [hr] at hphases; cases hphases
    | cons q rest =>
      have hmem : q ∈ r.phases := hr ▸ List.mem_cons_self
      exact ⟨q, List.mem_cons_self, (hall q hmem).1⟩
  obtain ⟨before, p, after, text, hsplit, -, -, hread, hlines, -⟩ :=
    latencies_of_last_phase hfresh h hsize
  have hp : p.samples = 1 := (hall p (by simp [hsplit])).2
  exact ⟨session', r, text, h, hphases, hread, hlines.trans hp⟩

end EchoLoad.Sweep
