import EchoLoad.Proofs.Workload.RunSteps
/-!
A ramp that was interrupted. It also ends so if no more than its run flag was cleared; but an
interrupt sets the stop latch as well, and a failure that clears the flag ends the ramp in another
way. Main statement: `Ramp.run_latched`.
-/

namespace EchoLoad

namespace World

variable {set : Setting} {w w' : World}

/-- Every interrupt to come sets the latch, and one that has cleared the flag has set it. -/
structure Latching (w : World) : Prop where
  signals : ∀ x ∈ w.signals, x.2 = .interrupt
  latched : w.active = false → w.stopped = true

namespace Latching

theorem congr (h : w.Latching) (hsignals : w'.signals = w.signals) (hactive : w'.active = w.active)
    (hstopped : w'.stopped = w.stopped) : w'.Latching :=
  ⟨hsignals ▸ h.signals, fun ha => hstopped.trans (h.latched (hactive ▸ ha))⟩

theorem internalStep (h : w.Latching) (hs : InternalStep set w w') : w'.Latching := by
  cases hs with
  | @signal t s rest hsignal =>
    rw [interrupted_eq hsignal]
    have hs : s = .interrupt := h.signals (t, s) (hsignal ▸ List.mem_cons_self)
    have hrest : ∀ x ∈ rest, x.2 = .interrupt :=
      fun x hx => h.signals x (hsignal ▸ List.mem_cons_of_mem _ hx)
    exact ⟨hrest, fun _ => by simp [hs]⟩
  | arrived | declined | echoed | broken | start | retire => exact h.congr rfl rfl rfl

/-- Only the controller clears the flag without setting the latch. -/
theorem attend {σ ρ : Type} {watch : Watch σ ρ} {fuel : Nat} {s : σ} {r : ρ} (h : w.Latching)
    (hreact : ∀ s b w, (watch.react s b w).1.signals = w.signals ∧
      (watch.react s b w).1.active = w.active ∧ (watch.react s b w).1.stopped = w.stopped)
    (ha : w.attend set watch fuel s = .ok (w', r)) : w'.Latching := by
  refine attend_rule (I := fun _ => Latching) (Q := fun w _ => w.Latching) ?_ ?_ ?_ h ha
  · exact fun _ _ _ h => h.congr rfl rfl rfl
  · exact fun _ _ _ h hs => h.internalStep hs
  · intro s w1 w2 b h hr
    have hw2 : w2.Latching := by
      cases hr <;> exact h.congr rfl rfl rfl
    obtain ⟨hsignals, hactive, hstopped⟩ := hreact s b w2
    have hw3 := hw2.congr hsignals hactive hstopped
    split <;> next he => rwa [he] at hw3

variable {fuel first size : Nat}

theorem connectBatch {watchful : Bool} {out : BatchOutcome} (h : w.Latching)
    (hc : w.connectBatch set fuel first size watchful = .ok (w', out, none)) : w'.Latching := by
  obtain ⟨⟨w1, seen⟩, ha, he⟩ := map_eq_ok.1 hc
  cases he
  have hdials : (w.dialBatch set first size).Latching :=
    foldl_keeps (fun _ _ h => h.congr rfl rfl rfl) _ h
  have hwait : w1.Latching := by
    refine attend_rule (I := fun seen w => seen = none → w.Latching)
      (Q := fun w seen => seen = none → w.Latching) ?_ ?_ ?_ (fun _ => hdials) ha rfl
    · exact fun _ _ _ h hnone => (h hnone).congr rfl rfl rfl
    · exact fun _ _ _ h hs hnone => (h hnone).internalStep hs
    · intro seen w1 w2 b h hr
      cases hr with
      | alarm ha => cases ha
      | mail => exact nofun
      | joined _ _ hj => cases hj
      | ended => exact h
  exact hwait.congr rfl rfl rfl

end Latching

theorem stopped_kept (set : Setting) : Kept set (·.stopped = true) := by
  intro w w' h hmove
  cases hmove with
  | internalStep hs =>
    cases hs with
    | signal hsignal =>
      rw [interrupted_eq hsignal]
      simp [h]
    | arrived | declined | echoed | broken | start | retire => exact h
  | close c =>
    unfold World.close
    split <;> exact h
  | pass | failures | join | cancel | restart | dial | handOver | spawn | release | sink => exact h

theorem closeAll_stopped {fuel batch n : Nat} {pause : Duration} {clients : List Client}
    (h : w.closeAll set fuel batch pause clients = .ok (w', n)) (hstopped : w.stopped = true) :
    w'.stopped = true :=
  (closeAll_leaves (stopped_kept set).lasting.anyPlan
    (fun _ c h => stopped_kept set _ _ h (.close c)) hstopped).ok h

end World

namespace Ramp

open World

variable {set : Setting} {fuel : Nat} {s : RampSettings} {r r' : Ramp} {w w' : World}

theorem admitBatch_latching {clients left : List Client} (h : w.Latching)
    (ha : admitBatch set fuel s clients w = .ok (w', left)) : w'.Latching := by
  have hspawned : (clients.foldl (World.spawn set (admissionPlan s)) w).Latching :=
    foldl_keeps (fun _ _ h => h.congr rfl rfl rfl) _ h
  refine hspawned.attend (fun left b w => ?_) ha
  simp only [admitting]
  split
  · split <;> exact ⟨rfl, rfl, rfl⟩
  · exact ⟨rfl, rfl, rfl⟩
  · exact ⟨rfl, rfl, rfl⟩

/-- **One cycle.** If the ramp goes on nothing has cleared its flag but an interrupt, and if it ends
as interrupted then the latch is set. -/
theorem cycle_latched {ending : Option RampEnd} (h : w.Latching)
    (hc : cycle set fuel s r w = .ok (w', r', ending)) :
    (ending = none → w'.Latching) ∧ (ending = some .interrupted → w'.stopped = true) := by
  cases cycle_ok hc with
  | ended hn =>
    refine ⟨nofun, fun he => ?_⟩
    cases he
    cases next_ok hn with
    | interrupted _ hstop => exact hstop.elim h.latched id
  | noticed => exact ⟨nofun, nofun⟩
  | refused => exact ⟨nofun, nofun⟩
  | admitted _ hconnect _ ha =>
    exact ⟨fun _ => admitBatch_latching (h.connectBatch hconnect) ha, nofun⟩
  | @paused _ _ _ _ _ _ failure _ hconnect _ ha hp =>
    have hadmitted := admitBatch_latching (h.connectBatch hconnect) ha
    refine ⟨fun _ => hadmitted.attend (fun _ b w => ?_) hp, fun he => ?_⟩
    · simp only [pausing]
      split <;> exact ⟨rfl, rfl, rfl⟩
    · obtain ⟨f, -, he⟩ := Option.map_eq_some_iff.1 he
      cases he

theorem grow_latched {batches : Nat} (h : w.Latching)
    (hg : grow set fuel s batches r w = .ok (w', r', .interrupted)) : w'.stopped = true := by
  induction batches generalizing r w with
  | zero => cases hg
  | succ batches ih =>
    unfold grow at hg
    split at hg
    · cases hg
    · next w1 r1 ending hc =>
      cases hg
      exact (cycle_latched h hc).2 rfl
    · next w1 r1 hc => exact ih ((cycle_latched h hc).1 rfl) hg

theorem settle_interrupted {ending : RampEnd} {clients : List Client}
    (h : settle set fuel ending w = .ok (w', clients, .interrupted)) : ending = .interrupted := by
  obtain ⟨⟨w1, clients1⟩, -, h⟩ := bind_eq_ok.1 h
  dsimp only at h
  split at h <;> cases h
  rfl

/-- **A ramp ends as interrupted only if the stop latch was set.** -/
theorem run_latched {o : Output} {session session' : Session} {report : RampReport}
    (hsignals : ∀ x ∈ session.world.signals, x.2 = .interrupt)
    (h : run set fuel s o session = .ok (session', .ok report))
    (hending : report.ending = .interrupted) : session'.world.stopped = true := by
  obtain ⟨w1, r, ending1, w2, clients, ending, w3, closed, hg, hs, hc, hworld, rfl⟩ := run_ok h
  obtain rfl : ending = .interrupted := hending
  obtain rfl := settle_interrupted hs
  have hkept := (stopped_kept set).lasting.anyPlan
  have hstart : session.world.activate.Latching := ⟨hsignals, fun ha => by cases ha⟩
  have hgrown : w1.stopped = true := grow_latched hstart hg
  have hsettled : w2.stopped = true := (settle_leaves hkept hgrown).ok hs
  have hclosed : w3.stopped = true :=
    (closeAll_leaves hkept (fun _ c h => stopped_kept set _ _ h (.close c)) hsettled).ok hc
  rw [hworld]
  exact hclosed

end Ramp

end EchoLoad
