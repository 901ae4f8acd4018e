import EchoLoad.Config
/-!
What is known of a configuration that was accepted. Main statement: `merge_ok`.
-/

namespace EchoLoad.Config

variable {a : Arguments} {f : FileConfig} {c : Config}

structure Checked (c : Config) : Prop where
  batchSize : 0 < c.batchSize
  workers : c.workers ≠ some 0
  ramp : c.ramp.minLength ≤ c.ramp.maxLength
  clients : 0 < c.throughput.clients
  sizes : c.throughput.sizes ≠ []
  fits : ∀ size ∈ c.throughput.sizes, size < Frame.lengthBound
  mixedClients : 0 < c.mixed.clients
  mixed : c.mixed.minLength ≤ c.mixed.maxLength
  maxRounds : 0 < c.mixed.maxRounds
  ends : c.throughput.rounds ≠ none ∨ 0 < c.throughput.runTime

theorem passes {p : Prop} [Decidable p] {x : ConfigProblem} {rest : Option ConfigProblem} :
    (if p then some x else rest) = none ↔ ¬ p ∧ rest = none := by
  split <;> simp [*]

theorem checked_of_problem (h : c.problem? = none) : c.Checked := by
  unfold problem? at h
  obtain ⟨hbatch, h⟩ := passes.1 h
  obtain ⟨hworkers, h⟩ := passes.1 h
  obtain ⟨hramp, h⟩ := passes.1 h
  obtain ⟨hclients, h⟩ := passes.1 h
  obtain ⟨hsizes, h⟩ := passes.1 h
  cases hfits : c.oversized? with
  | some size => simp [hfits] at h
  | none =>
    simp only [hfits] at h
    obtain ⟨hmixedClients, h⟩ := passes.1 h
    obtain ⟨hmixed, h⟩ := passes.1 h
    obtain ⟨hrounds, h⟩ := passes.1 h
    obtain ⟨hends, -⟩ := passes.1 h
    exact {
      batchSize := by omega
      workers := hworkers
      ramp := by omega
      clients := by omega
      sizes := hsizes
      fits := fun size hsize => by
        have hnone := List.find?_eq_none.1 hfits size hsize
        simpa using hnone
      mixedClients := by omega
      mixed := by omega
      maxRounds := by omega
      ends := by
        by_cases hnone : c.throughput.rounds = none
        · exact .inr (Nat.pos_of_ne_zero fun hzero => hends ⟨hnone, hzero⟩)
        · exact .inl hnone }

/-- **An accepted configuration** is the command line over the file, and has passed every check. -/
theorem merge_ok (h : merge a f = .ok c) : c = overlay a f ∧ c.Checked := by
  unfold merge at h
  dsimp only at h
  split at h
  · cases h
  · next hnone =>
    cases h
    exact ⟨rfl, checked_of_problem hnone⟩

end EchoLoad.Config
