import EchoLoad.Proofs.ResultFiles
import EchoLoad.Proofs.Quiescent
import EchoLoad.Proofs.Workload.PhaseRuns
/-!
A sweep that nothing breaks off. If its files can be written then it goes from phase to phase, and
whatever each pause and each phase keeps holds at its end. Main statements:
`PhaseInvariant.advance` and `run_settles`.
-/

namespace EchoLoad

theorem Session.writeSeries_total {o : Output} {series : String} (samples : List Duration)
    (s : Session) (h : (s.store.writable (o.path series "csv")).isOk = true) :
    ∃ s', s.writeSeries o series samples = .ok s' ∧ s'.world = s.world ∧
      s.store.Puts (o.path series "csv") s'.store := by
  obtain ⟨store, hstore⟩ := Store.write_total (Output.seriesText (samples.map Duration.seconds)) h
  refine ⟨{ s with store }, ?_, rfl, Store.write_puts hstore⟩
  rw [writeSeries, Output.writeSeries, hstore]
  rfl

namespace Sweep

variable {set : Setting} {fuel : Nat} {s : SweepSettings} {o : Output} {size : Nat}
  {clients : List Client} {w w' : World} {ph : PhaseRun}

/-- With enough fuel the phase goes so. -/
def PhaseRun.Completes (set : Setting) (s : SweepSettings) (ph : PhaseRun) : Prop :=
  Settles (fun fuel => phase set fuel s ph.size ph.clients ph.before)
    (ph.after, ph.back, ph.summary, ph.failure)

/-- With enough fuel the way goes through these phases. -/
def AllComplete (set : Setting) (s : SweepSettings) (w : World) (phs : List PhaseRun) (w' : World) :
    Prop :=
  ∃ enough, ∀ fuel, enough ≤ fuel → PhaseSequence set fuel s w phs w'

namespace AllComplete

variable {phs : List PhaseRun} {w₁ w₂ : World}

theorem nil (h : w.Idle w') : AllComplete set s w [] w' := ⟨0, fun _ _ => .rest h⟩

theorem cons (hbefore : w.Idle ph.before) (hphase : ph.Completes set s) (hafter : ph.after.Idle w₁)
    (hrest : AllComplete set s w₁ phs w') : AllComplete set s w (ph :: phs) w' := by
  obtain ⟨enough, hruns⟩ := hphase
  obtain ⟨enough', hseq⟩ := hrest
  refine ⟨max enough enough', fun fuel hfuel => ?_⟩
  exact .phase hbefore (hruns fuel (by omega)) ((hseq fuel (by omega)).after_idle hafter)

theorem between (hbefore : w.Idle w₁) (h : AllComplete set s w₁ phs w₂) (hafter : w₂.Idle w') :
    AllComplete set s w phs w' := by
  obtain ⟨enough, hseq⟩ := h
  exact ⟨enough, fun fuel hfuel => ((hseq fuel hfuel).after_idle hbefore).then_idle hafter⟩

end AllComplete

/-! ## A turn -/

theorem pause_quiescent {p : Sweep} (h : w.Quiescent) :
    ∃ w', Settles (fun fuel => pause set fuel s p w) w' ∧ (w' = w ∨ ∃ t, w' = w.tick t) := by
  unfold pause
  split
  · exact ⟨w, .of_ok fun _ => rfl, .inl rfl⟩
  · exact ⟨_, h.sleep set s.phasePause, .inr ⟨_, rfl⟩⟩

theorem record_total {p : PhaseSummary} (session : Session)
    (hmessages : (session.store.writable (o.path s!"msg-lat-{p.size}" "csv")).isOk = true)
    (hthroughput : (session.store.writable (o.path "throughput" "csv")).isOk = true) :
    ∃ session', record o p session = (session', .ok ()) ∧
      ∀ path, (session.store.writable path).isOk = true →
        (session'.store.writable path).isOk = true := by
  let taken : Session := { session with world := session.world.takeMessages.2 }
  obtain ⟨session1, hwrite, -, hputs⟩ :=
    Session.writeSeries_total session.world.takeMessages.1 taken hmessages
  have hputs : session.store.Puts (o.path s!"msg-lat-{p.size}" "csv") session1.store := hputs
  let line := throughputRecord p.size p.bytes p.recordedTime
  obtain ⟨store, happend⟩ := Store.append_total (line ++ "\n") (hputs.writable hthroughput)
  have happended :
    o.appendThroughput p.size p.bytes p.recordedTime session1.store = .ok store := happend
  refine ⟨{ session1 with store, printed := session1.printed ++ [line] }, ?_, fun path h =>
    (Store.append_puts happend).writable (hputs.writable h)⟩
  unfold record
  dsimp only
  rw [hwrite]
  dsimp only
  rw [happended]

/-- A turn comes to its end if its pause and its phase do, and its files can be written. -/
theorem turn_settles {p : Sweep} {session : Session}
    (hpause : Settles (fun fuel => pause set fuel s p session.world) ph.before)
    (hstopped : ph.before.stopped = false) (hphase : ph.Completes set s)
    (hclients : ph.clients = p.clients) (hnone : ph.failure = none)
    (hsize : ph.summary.size = ph.size)
    (hmessages : (session.store.writable (o.path s!"msg-lat-{ph.size}" "csv")).isOk = true)
    (hthroughput : (session.store.writable (o.path "throughput" "csv")).isOk = true) :
    ∃ session', Settles (fun fuel => turn set fuel s o ph.size p session)
        (session', .ok (⟨ph.back, p.phases ++ [ph.summary], none⟩, true)) ∧
      session'.world = ph.after.takeMessages.2 ∧
      ∀ path, (session.store.writable path).isOk = true →
        (session'.store.writable path).isOk = true := by
  obtain ⟨session', hrecord, hstore⟩ := record_total (o := o) (p := ph.summary)
    { session with world := ph.after } (hsize ▸ hmessages) hthroughput
  have hworld : session'.world = ph.after.takeMessages.2 := by
    have hrecorded := record_world o ph.summary { session with world := ph.after }
    rwa [hrecord] at hrecorded
  refine ⟨session', hpause.bind ?_, hworld, hstore⟩
  simp only [hstopped, Bool.false_eq_true, if_false]
  rw [PhaseRun.Completes, hclients, hnone] at hphase
  refine hphase.bind (.of_ok fun fuel => ?_)
  simp only [hrecord]
  rfl

/-! ## All turns -/

/-- Pauses and phases carry `J` on, which says what holds of the pool and the world after so many
phases, and each phase is as `R` says. -/
structure PhaseInvariant (set : Setting) (s : SweepSettings) (J : Nat → List Client → World → Prop)
    (R : PhaseRun → Prop) : Prop where
  workers : ∀ i clients w, J i clients w → w.workers = []
  stopped : ∀ i clients w, J i clients w → w.stopped = false
  takeMessages : ∀ i clients w, J i clients w → J i clients w.takeMessages.2
  pause : ∀ i (p : Sweep) w, J i p.clients w →
    ∃ w', Settles (fun fuel => pause set fuel s p w) w' ∧ J i p.clients w'
  phase : ∀ i clients w size, J i clients w → size < Frame.lengthBound →
    ∃ ph : PhaseRun, ph.Completes set s ∧ ph.before = w ∧ ph.size = size ∧ ph.clients = clients ∧
      ph.failure = none ∧ ph.summary.size = ph.size ∧ R ph ∧ J (i + 1) ph.back ph.after

/-- **All phases**, one for each size in order. -/
theorem PhaseInvariant.advance {J : Nat → List Client → World → Prop} {R : PhaseRun → Prop}
    (h : PhaseInvariant set s J R) {sizes : List Nat} {p : Sweep} (session : Session) {i : Nat}
    (hj : J i p.clients session.world) (hnone : p.failure = none)
    (hsizes : ∀ size ∈ sizes, size < Frame.lengthBound)
    (hmessages : ∀ size ∈ sizes,
      (session.store.writable (o.path s!"msg-lat-{size}" "csv")).isOk = true)
    (hthroughput : (session.store.writable (o.path "throughput" "csv")).isOk = true) :
    ∃ session' p' phs, Settles (fun fuel => advance set fuel s o sizes p session)
        (session', .ok p') ∧
      AllComplete set s session.world phs session'.world ∧
      J (i + sizes.length) p'.clients session'.world ∧ p'.failure = none ∧
      p'.phases = p.phases ++ phs.map PhaseRun.summary ∧ phs.map PhaseRun.size = sizes ∧
      ∀ ph ∈ phs, R ph := by
  -- `i` counts the phases behind, the sizes are those ahead
  induction sizes generalizing i p session with
  | nil =>
    exact ⟨session, p, [], .of_ok fun _ => rfl, .nil (.refl (h.workers _ _ _ hj)), hj, hnone,
      (List.append_nil _).symm, rfl, List.forall_mem_nil _⟩
  | cons size sizes ih =>
    obtain ⟨w, hpause, hw⟩ := h.pause i p session.world hj
    obtain ⟨ph, hphase, rfl, rfl, hclients, hfailure, hsize, hr, hafter⟩ :=
      h.phase i p.clients w size hw (hsizes size List.mem_cons_self)
    obtain ⟨session1, hturn, hworld, hstore⟩ := turn_settles hpause (h.stopped _ _ _ hw) hphase
      hclients hfailure hsize (hmessages _ List.mem_cons_self) hthroughput
    have h1 : J (i + 1) ph.back session1.world := hworld ▸ h.takeMessages _ _ _ hafter
    obtain ⟨session', p', phs, hrest, hcomplete, hj', hnone', hphases, hphs, hall⟩ :=
      ih (p := ⟨ph.back, p.phases ++ [ph.summary], none⟩) session1 h1 rfl
        (fun size hmem => hsizes size (List.mem_cons_of_mem _ hmem))
        (fun size hmem => hstore _ (hmessages size (List.mem_cons_of_mem _ hmem)))
        (hstore _ hthroughput)
    refine ⟨session', p', ph :: phs, ?_, ?_, ?_, hnone', ?_, congrArg _ hphs,
      List.forall_mem_cons.2 ⟨hr, hall⟩⟩
    · refine hturn.follow hrest fun fuel hok => ?_
      rw [Sweep.advance, hok]
    · obtain ⟨fuel, hok⟩ := hpause.exists_ok
      refine .cons (pause_idle (h.workers _ _ _ hj) hok) hphase ?_ hcomplete
      rw [hworld]
      exact .of_eq rfl rfl (h.workers _ _ ph.after hafter)
    · rwa [List.length_cons, Nat.add_comm sizes.length, ← Nat.add_assoc]
    · rw [hphases, List.append_assoc]
      rfl

theorem run_settles {session session1 session2 : Session} {joins closed : Nat} {store : Store}
    {p : Sweep}
    (hestablish : Settles (fun fuel => session.establish set fuel s.clients s.batchSize o)
      (session1, .ok (clients, joins)))
    (hstart : o.startThroughput session1.store = .ok store)
    (hadvance : Settles (fun fuel => advance set fuel s o s.sizes { clients }
      { session1 with store }) (session2, .ok p))
    (hclose : Settles (fun fuel => session2.world.closeAll set fuel s.batchSize s.closePause
      p.clients) (w, closed)) :
    Settles (fun fuel => run set fuel s o session) ({ session2 with world := w }, .ok
      { pool := p.clients.length, joinSamples := joins, phases := p.phases
        failure := p.failure, interrupted := w.stopped }) := by
  refine hestablish.bind ?_
  simp only [hstart]
  refine hadvance.bind ?_
  exact hclose.bind (.of_ok fun _ => rfl)

end Sweep

end EchoLoad
