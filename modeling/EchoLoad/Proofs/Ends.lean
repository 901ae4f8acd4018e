import EchoLoad.Proofs.Pool
import EchoLoad.Proofs.FailureFree
/-!
The waits of a controller in a world without failures: each of them ends, and no failure comes of it.
Main statements: `FailureFree.connectBatch`, `FailureFree.pause` and `FailureFree.drain`.
-/

namespace EchoLoad.World

variable {set : Setting} {size : PayloadSize} {peer : Nat → Peer} {flag : Bool}
  {P : EchoPlan → Prop} {w w' : World} {n : Nat}

namespace FailureFree

/-! ## A batch -/

theorem dialBatch (hpeers : Dependable set.options size peer)
    (hw : w.FailureFree set size peer flag P) (m : Nat) :
    (w.dialBatch set w.network.connections.length m).FailureFree set size peer flag P := by
  induction m generalizing w with
  | zero => exact hw
  | succ m ih =>
    obtain ⟨a, ha⟩ := hw.books
    have hdial : (w.dial set w.network.connections.length).FailureFree set size peer flag P :=
      ⟨hw.fair.dial hpeers, ⟨a, ha.dial⟩, hw.flag, hw.plans⟩
    have ih := ih hdial
    rw [dial_length] at ih
    exact ih

/-- **A batch comes to its end**, and no failure is seen meanwhile. -/
theorem connectBatch (hsize : size.Allows n) (hpeers : Dependable set.options size peer)
    (hw : w.FailureFree set size peer flag P) (m : Nat) (watchful : Bool) :
    ∃ w' out, w'.FailureFree set size peer flag P ∧
      Settles (fun fuel => w.connectBatch set fuel w.network.connections.length m watchful)
        (w', out, none) := by
  have hw := hw.dialBatch hpeers m
  obtain ⟨horizon, hn⟩ := exists_within (w.dialBatch set w.network.connections.length m)
  have hwait : ∃ w1 seen, Settles
      (fun fuel => (w.dialBatch set w.network.connections.length m).attend set
        (connecting watchful) fuel none) (w1, seen) ∧
      w1.FailureFree set size peer flag P ∧ seen = none := by
    refine attend_by horizon hsize (fun _ _ _ => rfl) ?_ ?_ hw hn
    · intro w hw hn
      rcases hd : w.dials with _ | ⟨d, dials⟩
      · exact ⟨w.now, .ended, ended_mem_moves (by simp [connecting, hd]), hn.1⟩
      · have hmem : d ∈ w.dials := by simp [hd]
        obtain ⟨t, r, he⟩ := hw.fair.exists_ending hmem
        exact ⟨t, .dial 0, dial_mem_moves (by simp [hd]) he, hn.2 d hmem t r he⟩
    · intro w w' b hw hr
      cases hr with
      | alarm ha => cases ha
      | mail _ hf => rw [hw.failures] at hf; cases hf
      | joined _ _ hj => cases hj
      | ended => exact ⟨_, none, rfl, hw, rfl⟩
  obtain ⟨w1, _, hx, hw1, rfl⟩ := hwait
  obtain ⟨a, ha⟩ := hw1.books
  exact ⟨w1.handOver.1, w1.handOver.2,
    ⟨hw1.fair.handOver, ⟨_, ha.handOver⟩, hw1.flag, hw1.plans⟩, hx.map _⟩

/-! ## A pause -/

/-- **A pause comes to its end.** -/
theorem pause (hsize : size.Allows n) (hw : w.FailureFree set size peer flag P) (hd : w.dials = [])
    (d : Duration) :
    ∃ w', w'.FailureFree set size peer flag P ∧
      Settles (fun fuel => w.pause set fuel d) (w', none) := by
  have hwait : ∃ w1 failure, Settles (fun fuel => w.pause set fuel d) (w1, failure) ∧
      w1.FailureFree set size peer flag P ∧ failure = none := by
    refine attend_by (w.now + d) hsize (fun _ _ _ => rfl)
      (fun w _ _ => ⟨_, .alarm, alarm_mem_moves rfl, Nat.le_refl _⟩) ?_ hw
      ⟨Nat.le_add_right .., by simp [hd]⟩
    intro w w' b hw hr
    cases hr with
    | alarm => exact ⟨_, none, rfl, hw, rfl⟩
    | mail _ hf => rw [hw.failures] at hf; cases hf
    | joined _ _ hj => cases hj
    | ended he => cases he
  obtain ⟨w1, _, hx, hw1, rfl⟩ := hwait
  exact ⟨w1, hw1, hx⟩

/-! ## Loops that end -/

/-- How far a loop is from its end when the flag is clear. -/
def remaining (k : Worker) : Nat :=
  match k.stage with
  | .busy _ => 3
  | .ready => 2
  | .done => 1

theorem remaining_lt {k k' : Worker} {now : Duration} (h : k.Turns false now k') :
    remaining k' < remaining k := by
  cases h with
  | echoed hs | retired hs =>
    simp [remaining, hs, Worker.advance]
  | started _ ha => cases ha

/-- **Once the flag is clear all loops end.** -/
theorem drain (hsize : size.Allows n) (hw : w.FailureFree set size peer false P) (hd : w.dials = []) :
    ∃ w' clients, w'.FailureFree set size peer false P ∧
      Settles (fun fuel => w.drain set fuel) (w', clients) := by
  have hwait : ∃ w1 clients, Settles (fun fuel => w.attend set draining fuel []) (w1, clients) ∧
      w1.FailureFree set size peer false P := by
    refine attend_total (I := fun r _ w => w.FailureFree set size peer false P ∧ w.dials = [] ∧
      r = (w.workers.map remaining).sum) ?_ (fun _ _ _ => rfl) ?_ ?_ ?_ ⟨hw, hd, rfl⟩
    · exact fun _ _ _ h => h.1.draws hsize
    · rintro r s w ⟨hw, hd, rfl⟩
      obtain ⟨t₁, m₁, hm⟩ : ∃ t m, (t, m) ∈ w.moves (draining.waiting s) := by
        rcases hk : w.workers with _ | ⟨k, workers⟩
        · exact ⟨w.now, .ended, ended_mem_moves (by simp [draining, hk])⟩
        · have hmem : k ∈ w.workers := by simp [hk]
          have hi : w.workers[0]? = some k := by simp [hk]
          cases hs : k.stage with
          | ready =>
            obtain ⟨t, m, hm, -⟩ := exists_move_of_ready hmem hs
            exact ⟨t, m, hm⟩
          | busy ending =>
            obtain ⟨t, latency, rfl⟩ := hw.fair.rounds k hmem ending hs
            exact ⟨t, _, round_mem_moves hi hs⟩
          | done => exact ⟨w.now, _, join_mem_moves hi hs rfl⟩
      exact ⟨t₁, m₁, hm, fun t hnow _ => ⟨_, Nat.le_refl _, hw.tick hnow, hd, rfl⟩⟩
    · rintro r s w w' ⟨hw, hd, rfl⟩ hs
      obtain ⟨hw', -, hturn⟩ := hw.internalStep hs
      cases hturn with
      | attempt _ hlt => simp [hd] at hlt
      | @loop i k k' hk hworkers hdials ht =>
        refine ⟨_, ?_, hw', hdials.trans hd, rfl⟩
        rw [hw.flag] at ht
        rw [hworkers, sum_map_set hk, sum_map_eraseIdx hk]
        exact Nat.add_lt_add_right (remaining_lt ht) _
    · rintro r s w w' b ⟨hw, hd, rfl⟩ hr
      cases hr with
      | alarm ha => cases ha
      | mail hm => cases hm
      | ended => exact hw
      | @joined i k hk hs =>
        obtain ⟨a, ha⟩ := hw.books
        refine ⟨_, ?_, ⟨hw.fair.join hk hs, ⟨_, ha.join hk hs⟩, hw.flag, fun x hx =>
          hw.plans x (List.eraseIdx_subset hx)⟩, hd, rfl⟩
        rw [sum_map_eraseIdx hk]
        simp only [remaining, hs]
        omega
  obtain ⟨w1, clients, hx, hw1⟩ := hwait
  exact ⟨w1, clients, hw1, hx⟩

theorem cancel (hw : w.FailureFree set size peer flag P) :
    w.cancel.FailureFree set size peer false P := by
  obtain ⟨a, ha⟩ := hw.books
  exact ⟨hw.fair.cancel, ⟨a, ha.congr ha.custody rfl rfl rfl rfl rfl⟩, rfl, hw.plans⟩

end FailureFree

/-! ## Clients that are closed -/

variable {o : ClientOptions}

theorem Fair.close (h : w.Fair o size peer) (c : Client) :
    (w.close c).Fair o size peer ∧
      (w.close c).network.connections.length = w.network.connections.length := by
  by_cases hc : c.isOpen = true
  · have hclose : (c.close w.network).2 = c.stream.elim w.network
        (w.network.modify · fun conn => conn.shutdown.1) := by
      rw [Client.close, if_pos hc]
      cases c.stream <;> rfl
    have hidle : ∀ (net : Network) (m : Nat) (t : Duration), w.IdleFrom m t →
        ({ w.note (.closed c.id) with network := net } : World).IdleFrom m t :=
      fun _ _ _ hidle => hidle.congr (Nat.le_refl _) (fun _ hd => .inl hd) fun _ hk => .inl hk
    rw [World.close, if_pos hc, hclose]
    refine ⟨⟨?_, h.signals, h.stopped, ?_, h.plans, h.rounds, h.dials, fun m e hm => ?_,
      fun m conn hm hf => ?_⟩, ?_⟩
    · cases c.stream <;> exact h.peers
    · exact (failedRounds_cons (w := w) (e := .closed c.id) rfl).trans (by rw [h.clean]; rfl)
    · rcases List.mem_cons.1 hm with hm | hm
      · cases hm
      · exact h.resolved m e hm
    · dsimp only at hm
      cases hs : c.stream with
      | none =>
        rw [hs] at hm
        obtain ⟨since, hfaithful, hold⟩ := h.faithful m conn hm hf
        exact ⟨since, hfaithful, hidle _ m since hold⟩
      | some n =>
        rw [hs, Option.elim, Network.modify, List.getElem?_modify] at hm
        obtain ⟨conn', hm', rfl⟩ := Option.map_eq_some_iff.1 hm
        by_cases hn : n = m
        · simp [hn, Connection.shutdown] at hf
        · rw [if_neg hn] at hf ⊢
          obtain ⟨since, hfaithful, hold⟩ := h.faithful m conn' hm' hf
          exact ⟨since, hfaithful, hidle _ m since hold⟩
    · cases c.stream with
      | none => rfl
      | some n => exact List.length_modify ..
  · rw [World.close, if_neg hc]
    exact ⟨h, rfl⟩

theorem Fair.closeBatch (h : w.Fair o size peer) (clients : List Client) :
    (w.closeBatch clients).1.Fair o size peer ∧
      (w.closeBatch clients).1.network.connections.length = w.network.connections.length := by
  refine closeBatch_keeps (P := fun w1 => w1.Fair o size peer ∧
    w1.network.connections.length = w.network.connections.length) ?_ clients ⟨h, rfl⟩
  rintro w1 c ⟨hfair, hlen⟩
  obtain ⟨hfair', hlen'⟩ := hfair.close c
  exact ⟨hfair', hlen'.trans hlen⟩

end EchoLoad.World
