import EchoLoad.Proofs.Checked
/-!
The two layers of a configuration. What the command line sets is all that matters of its key: the
file's value is not even checked. That holds key by key, and a phase has two keys: a number of
rounds in the file comes before the seconds of the command line. Main statements:
`overridden_unused` and `phase_end_origin`.
-/

namespace EchoLoad

/-- The file with the options of the command line written into it. -/
def FileConfig.withOptions (a : Arguments) (f : FileConfig) : FileConfig where
  target := { server := a.server.getD f.target.server }
  run :=
    { mode := a.mode.getD f.run.mode
      name := a.name.getD f.run.name
      outDir := a.out.getD f.run.outDir
      batchSize := a.batchSize.getD f.run.batchSize
      workers := a.workers.or f.run.workers }
  client := f.client
  ramp := f.ramp
  throughput := { f.throughput with
    clients := a.clients.getD f.throughput.clients
    runTime := a.runTime.getD f.throughput.runTime
    rounds := a.rounds.or f.throughput.rounds }
  mixed := { f.mixed with clients := a.clients.getD f.mixed.clients }
  logging := { level := a.logLevel.getD f.logging.level }

/-- The files differ only in keys that the command line sets: each key with an option is the same
in both if the option is not given, each other one is the same in any case. -/
structure FileConfig.SameBut (a : Arguments) (f g : FileConfig) : Prop where
  server : a.server = none → f.target.server = g.target.server
  mode : a.mode = none → f.run.mode = g.run.mode
  name : a.name = none → f.run.name = g.run.name
  outDir : a.out = none → f.run.outDir = g.run.outDir
  batchSize : a.batchSize = none → f.run.batchSize = g.run.batchSize
  workers : a.workers = none → f.run.workers = g.run.workers
  client : f.client = g.client
  ramp : f.ramp = g.ramp
  clients : a.clients = none → f.throughput.clients = g.throughput.clients
  sizes : f.throughput.sizes = g.throughput.sizes
  runTime : a.runTime = none → f.throughput.runTime = g.throughput.runTime
  rounds : a.rounds = none → f.throughput.rounds = g.throughput.rounds
  phasePause : f.throughput.phasePause = g.throughput.phasePause
  closePause : f.throughput.closePause = g.throughput.closePause
  mixedClients : a.clients = none → f.mixed.clients = g.mixed.clients
  minLength : f.mixed.minLength = g.mixed.minLength
  maxLength : f.mixed.maxLength = g.mixed.maxLength
  maxRounds : f.mixed.maxRounds = g.mixed.maxRounds
  level : a.logLevel = none → f.logging.level = g.logging.level

/-- What ends a phase by the file alone. -/
def SweepSection.phaseEnd (s : SweepSection) : PhaseEnd :=
  s.rounds.elim (.duration (.ofSecs s.runTime)) .rounds

variable {a : Arguments} {f g : FileConfig}

/-! ## An option over its key -/

theorem getD_congr {α : Type} {option : Option α} {x y : α} (h : option = none → x = y) :
    option.getD x = option.getD y := by
  cases option with
  | none => exact h rfl
  | some z => rfl

theorem or_congr {α : Type} {option x y : Option α} (h : option = none → x = y) :
    option.or x = option.or y := by
  cases option with
  | none => exact congrArg _ (h rfl)
  | some z => rfl

theorem FileConfig.SameBut.withOptions (h : f.SameBut a g) : f.withOptions a = g.withOptions a := by
  simp only [FileConfig.withOptions]
  rw [getD_congr h.server, getD_congr h.mode, getD_congr h.name, getD_congr h.outDir,
    getD_congr h.batchSize, or_congr h.workers, h.client, h.ramp, getD_congr h.clients, h.sizes,
    getD_congr h.runTime, or_congr h.rounds, h.phasePause, h.closePause,
    getD_congr h.mixedClients, h.minLength, h.maxLength, h.maxRounds, getD_congr h.level]

namespace Config

variable {c : Config}

/-- The command line over the file is the file with the options written in. -/
theorem overlay_withOptions (a : Arguments) (f : FileConfig) :
    overlay a f = overlay {} (f.withOptions a) := rfl

theorem merge_withOptions (a : Arguments) (f : FileConfig) :
    merge a f = merge {} (f.withOptions a) := by
  unfold merge
  rw [overlay_withOptions]

/-- **Overridden keys of the file have no influence.** Two files that differ only in such keys are
rejected for the same problem, or give configurations with the same settings. And a value that is
overridden is never checked: the file is rejected just if it is with the options written in. -/
theorem overridden_unused (h : f.SameBut a g) :
    ((∃ p, merge a f = .error p ∧ merge a g = .error p) ∨
      ∃ c d, merge a f = .ok c ∧ merge a g = .ok d ∧ c = d ∧
        c.clientOptions = d.clientOptions ∧ c.rampSettings = d.rampSettings ∧
        c.sweepSettings = d.sweepSettings ∧ c.mixedSettings = d.mixedSettings) ∧
    merge a f = merge {} (f.withOptions a) := by
  have hmerge : merge a f = merge a g := by
    rw [merge_withOptions a f, merge_withOptions a g, h.withOptions]
  refine ⟨?_, merge_withOptions a f⟩
  cases hf : merge a f with
  | error p => exact .inl ⟨p, rfl, hmerge ▸ hf⟩
  | ok c => exact .inr ⟨c, c, rfl, hmerge ▸ hf, rfl, rfl, rfl, rfl, rfl⟩

/-- A file in which nothing that has an option is usable, under options for all of it. -/
theorem overridden_unused_everywhere :
    let a : Arguments :=
      { server := some "[::1]:7", mode := some .mixed, name := some "n", out := some "o"
        batchSize := some 1, clients := some 2, runTime := some 3, rounds := some 4
        workers := some 5, logLevel := some "warn" }
    let f : FileConfig :=
      { target := { server := "nowhere" }
        run := { name := "", outDir := "", batchSize := 0, workers := some 0 }
        throughput := { clients := 0, runTime := 0 }
        mixed := { clients := 0 }
        logging := { level := "" } }
    f.SameBut a {} ∧ (merge a f).toOption.isSome = true ∧ (merge {} f).toOption.isSome = false ∧
      merge a f = merge {} (f.withOptions a) := by
  intro a f
  have hsame : f.SameBut a {} := by constructor <;> first | rfl | nofun
  exact ⟨hsame, by decide, by decide, (overridden_unused hsame).2⟩

/-! ## What ends a phase -/

theorem overlay_phaseEnd (a : Arguments) (f : FileConfig) :
    (overlay a f).sweepSettings.phaseEnd =
      (a.rounds.or f.throughput.rounds).elim
        (.duration (.ofSecs (a.runTime.getD f.throughput.runTime))) .rounds := rfl

/-- **Where the end of a phase comes from.** Rounds on the command line come first. Seconds on it
count just if the file gives no rounds, which come before them. With neither it is the file's. -/
theorem phase_end_origin (h : merge a f = .ok c) :
    (∀ n, a.rounds = some n → c.sweepSettings.phaseEnd = .rounds n) ∧
    (∀ t, a.rounds = none → a.runTime = some t →
      (c.sweepSettings.phaseEnd = .duration (.ofSecs t) ↔ f.throughput.rounds = none) ∧
      ∀ n, f.throughput.rounds = some n → c.sweepSettings.phaseEnd = .rounds n) ∧
    (a.rounds = none → a.runTime = none →
      c.sweepSettings.phaseEnd = f.throughput.phaseEnd) := by
  obtain ⟨rfl, -⟩ := merge_ok h
  rw [overlay_phaseEnd]
  refine ⟨fun n hn => ?_, fun t hnone ht => ⟨?_, fun n hn => ?_⟩, fun hnone ht => ?_⟩
  · rw [hn]
    rfl
  · rw [hnone, ht]
    cases f.throughput.rounds with
    | none => exact iff_of_true rfl rfl
    | some n => exact iff_of_false nofun nofun
  · rw [hnone, hn]
    rfl
  · rw [hnone, ht]
    rfl

/-- Five seconds are asked for and ten rounds are done. -/
theorem phase_end_origin_rounds :
    ∃ c, merge { runTime := some 5 } { throughput := { rounds := some 10 } } = .ok c ∧
      c.sweepSettings.phaseEnd = .rounds 10 ∧
      c.sweepSettings.phaseEnd ≠ .duration (.ofSecs 5) := by
  obtain ⟨c, hc⟩ : ∃ c, merge { runTime := some 5 } { throughput := { rounds := some 10 } } = .ok c :=
    ⟨_, rfl⟩
  obtain ⟨hsecs, hrounds⟩ := (phase_end_origin hc).2.1 5 rfl rfl
  exact ⟨c, hc, hrounds 10 rfl, fun h => nomatch hsecs.1 h⟩

end Config

end EchoLoad
