import EchoLoad.Proofs.Honest
import EchoLoad.Proofs.Progress
/-!
Waits in an honest world come to their end. A batch is over when all its attempts have ended, and
a crew whose loops may do a fixed number of rounds when each has done them: every turn of a loop
lowers what remains of it, even if its echo is there at once. Main statements: `connectBatch_ends`
and `joinAll_ends`.
-/

namespace EchoLoad

namespace World

variable {set : Setting} {peer : Nat → Peer} {held : List Client} {w : World}

/-! ## A batch -/

/-- **A batch in an honest world.** All its members connect. -/
theorem connectBatch_ends (size : Nat) (hw : w.workers = [])
    (h : w.Answering set.options peer (fun _ => set.options.handshakes) held)
    (hp : ∀ i < w.network.connections.length + size, (peer i).Honest set.options)
    (hshake : set.options.HandshakeFits) :
    ∃ w' out, Settles (fun fuel =>
        w.connectBatch set fuel w.network.connections.length size false) (w', out, none) ∧
      out.refusals = [] ∧
      w'.Answering set.options peer (fun _ => set.options.handshakes) (held ++ out.connected) := by
  have hstart := h.dialBatch size hp hshake
  obtain ⟨-, -, -, hworkers, -⟩ := dialBatch_frame set w w.network.connections.length size
  let I (r : Nat) (seen : Option Failure) (w1 : World) : Prop :=
    seen = none ∧ w1.Answering set.options peer (fun _ => set.options.handshakes) held ∧
      w1.workers = [] ∧ r = w1.dials.length
  obtain ⟨w1, seen, hwait, rfl, hw1⟩ : ∃ w1 seen,
      Settles (fun fuel => (w.dialBatch set w.network.connections.length size).attend set
        (connecting false) fuel none) (w1, seen) ∧ seen = none ∧
      w1.Answering set.options peer (fun _ => set.options.handshakes) held := by
    refine attend_total (I := I) ?_ (fun _ _ _ => rfl) ?_ ?_ ?_
      ⟨rfl, hstart, hworkers.trans hw, rfl⟩
    · rintro r seen w1 ⟨-, -, hw, -⟩ k hk
      rw [hw] at hk
      cases hk
    · rintro r seen w1 ⟨rfl, h1, hw, rfl⟩
      obtain ⟨t, m, hm⟩ : ∃ t m, (t, m) ∈ w1.moves ((connecting false).waiting none) := by
        cases hd : w1.dials with
        | nil => exact ⟨w1.now, .ended, ended_mem_moves (by simp [connecting, hd])⟩
        | cons d rest =>
          obtain ⟨t, latency, he⟩ := h1.dials d (hd ▸ List.mem_cons_self)
          exact ⟨t, .dial 0, dial_mem_moves (d := d) (by rw [hd]; rfl) he⟩
      exact ⟨t, m, hm, fun t _ _ => ⟨_, Nat.le_refl _, rfl, h1.tick t, hw, rfl⟩⟩
    · rintro r seen w1 w2 ⟨rfl, h1, hw, rfl⟩ hs
      cases hs with
      | signal hsignal => simp [h1.signals] at hsignal
      | @arrived i c t latency hd =>
        obtain ⟨hi, -⟩ := List.getElem?_eq_some_iff.1 hd
        have hlt : (w1.dials.eraseIdx i).length < w1.dials.length := by
          rw [List.length_eraseIdx_of_lt hi]
          omega
        exact ⟨_, hlt, rfl, h1.arrived hd, hw, rfl⟩
      | declined hd =>
        obtain ⟨t, latency, he⟩ := h1.dials _ (List.mem_of_getElem? hd)
        cases he
      | echoed hk | broken hk | start hk | retire hk => simp [hw] at hk
    · rintro r seen w1 w2 b ⟨rfl, h1, hw, rfl⟩ hr
      cases hr with
      | alarm ha => cases ha
      | mail hm => cases hm
      | joined hk => simp [hw] at hk
      | ended he => exact ⟨rfl, h1⟩
  exact ⟨w1.handOver.1, w1.handOver.2, hwait.map _, hw1.refusals, hw1.handOver⟩

end World

/-! ## A crew -/

namespace Worker

/-- A bound for the turns of a loop that may do `n` rounds, and for its end. -/
def remaining (n : Nat) (k : Worker) : Nat :=
  match k.stage with
  | .ready => 2 * (n - k.completed) + 2
  | .busy _ => 2 * (n - k.completed) + 1
  | .done => 1

theorem remaining_pos (n : Nat) (k : Worker) : 0 < k.remaining n := by
  unfold remaining
  split <;> exact Nat.succ_pos _

end Worker

namespace World

variable {set : Setting} {peer : Nat → Peer} {asked : Nat} {held : List Client} {w w' : World}

/-- What remains of all loops. -/
def remaining (n : Nat) (w : World) : Nat := (w.workers.map (Worker.remaining n)).sum

/-- **A turn lowers what remains.** -/
theorem InternalStep.remaining_lt {n : Nat} (hs : InternalStep set w w') (hsignals : w.signals = [])
    (hdials : w.dials = []) (hbudget : ∀ k ∈ w.workers, k.begun ≤ n) :
    w'.remaining n < w.remaining n := by
  have hset : ∀ {i : Nat} {k : Worker} (k' : Worker), w.workers[i]? = some k →
      k'.remaining n < k.remaining n →
      ((w.workers.set i k').map (Worker.remaining n)).sum < w.remaining n := by
    intro i k k' hk hlt
    rw [remaining, sum_map_set hk, sum_map_eraseIdx hk]
    exact Nat.add_lt_add_right hlt _
  have hbusy : ∀ {k : Worker} {ending : Ending}, k ∈ w.workers → k.stage = .busy ending →
      k.remaining n = 2 * (n - k.completed) + 1 ∧ k.completed < n := by
    intro k ending hk hb
    have hle := hbudget k hk
    simp only [Worker.begun, hb] at hle
    exact ⟨by simp only [Worker.remaining, hb], hle⟩
  have hready : ∀ {k : Worker}, k.stage = .ready →
      k.remaining n = 2 * (n - k.completed) + 2 := by
    intro k hr
    simp only [Worker.remaining, hr]
  have hdone : ∀ k : Worker, ({ k with stage := .done } : Worker).remaining n = 1 := fun _ => rfl
  cases hs with
  | signal hsignal => simp [hsignals] at hsignal
  | arrived hd | declined hd => simp [hdials] at hd
  | @echoed i k t latency hk hb =>
    obtain ⟨hrank, hlt⟩ := hbusy (List.mem_of_getElem? hk) hb
    refine hset k.advance hk ?_
    rw [hrank, hready (k := k.advance) rfl]
    simp only [Worker.advance]
    omega
  | @broken i k t e hk hb =>
    obtain ⟨hrank, hlt⟩ := hbusy (List.mem_of_getElem? hk) hb
    refine hset { k with stage := .done } hk ?_
    rw [hrank, hdone]
    omega
  | @start i length k source hk hst =>
    refine hset _ hk ?_
    rw [hready hst]
    exact Nat.lt_succ_self _
  | @retire i k hk hst =>
    refine hset { k with stage := .done } hk ?_
    rw [hready hst, hdone]
    omega

theorem Answering.exists_move {o : ClientOptions} {due : Client → Nat} {q : Waiting}
    (h : w.Answering o peer due held)
    (hjoins : ∀ k, q.joins k = true) {k : Worker} (hk : k ∈ w.workers) :
    ∃ t m, (t, m) ∈ w.moves q := by
  obtain ⟨i, hi⟩ := List.mem_iff_getElem?.1 hk
  cases hs : k.stage with
  | ready =>
    obtain ⟨t, m, hm, -⟩ := exists_move_of_ready (q := q) hk hs
    exact ⟨t, m, hm⟩
  | busy ending =>
    obtain ⟨t, latency, rfl⟩ := (h.workers k hk).round ending hs
    exact ⟨t, .work i, round_mem_moves hi hs⟩
  | done => exact ⟨w.now, .join i, join_mem_moves hi hs (hjoins k)⟩

/-- **A crew in an honest world.** All its clients come back, and no failure was sent. -/
theorem joinAll_ends {plan : EchoPlan} {size pool n : Nat} {base : World}
    (hc : Custody set.options held w) (h : w.Answering set.options peer (asked + ·.rounds) held)
    (ht : Tally.Running plan size pool base [] [] w) (hdials : w.dials = [])
    (hplan : plan.payload = .fixed size) (hn : plan.rounds = some n) :
    ∃ w' clients, Settles (fun fuel => w.joinAll set fuel none) (w', clients, none) ∧
      w'.Answering set.options peer (asked + ·.rounds) (held ++ clients) := by
  let I (r : Nat) (c : Crew) (w1 : World) : Prop :=
    c.deadline = none ∧ c.first = none ∧ Custody set.options (held ++ c.clients) w1 ∧
      w1.Answering set.options peer (asked + ·.rounds) (held ++ c.clients) ∧ w1.dials = [] ∧
      (∃ es, Tally.Running plan size pool base c.clients es w1) ∧ r = w1.remaining n
  obtain ⟨w1, c, hwait, hfirst, hw1⟩ : ∃ w1 c,
      Settles (fun fuel => w.attend set joining fuel {}) (w1, c) ∧ c.first = none ∧
      w1.Answering set.options peer (asked + ·.rounds) (held ++ c.clients) := by
    refine attend_total (I := I) ?_ (fun _ _ _ => rfl) ?_ ?_ ?_
      ⟨rfl, rfl, by simpa using hc, by simpa using h, hdials, ⟨[], ht⟩, rfl⟩
    · rintro r c w1 ⟨-, -, -, -, -, ⟨es, ht⟩, -⟩ k hk
      rw [(ht.workers k hk).follows, hplan]
      exact PayloadSize.sample_ne_none (n := size) rfl
    · rintro r c w1 ⟨hd, hf, hc, h1, hdials, ⟨es, ht⟩, rfl⟩
      obtain ⟨t, m, hm⟩ : ∃ t m, (t, m) ∈ w1.moves (joining.waiting c) := by
        cases hw : w1.workers with
        | nil => exact ⟨w1.now, .ended, ended_mem_moves (by simp [joining, hw])⟩
        | cons k rest => exact h1.exists_move (fun _ => rfl) (hw ▸ List.mem_cons_self)
      exact ⟨t, m, hm, fun t _ _ =>
        ⟨_, Nat.le_refl _, hd, hf, hc, h1.tick t, hdials, ⟨es, ht.tick t⟩, rfl⟩⟩
    · rintro r c w1 w2 ⟨hd, hf, hc, h1, hdials, ⟨es, ht⟩, rfl⟩ hs
      have hbudget : ∀ k ∈ w1.workers, k.begun ≤ n := fun k hk => (ht.workers k hk).budget n hn
      have hlt := hs.remaining_lt h1.signals hdials hbudget
      exact ⟨_, hlt, hd, hf, hs.custody hc, h1.internalStep (countsRounds_add fun _ => asked) hc hs,
        hs.dials_nil hdials, ht.internalStep hplan hdials hs, rfl⟩
    · rintro r c w1 w2 b ⟨hd, hf, hc, h1, hdials, ⟨es, ht⟩, rfl⟩ hr
      cases hr with
      | alarm ha =>
        rw [show (joining.waiting c).alarm = c.deadline from rfl, hd] at ha
        cases ha
      | mail hm hfail =>
        rw [h1.failures] at hfail
        cases hfail
      | @joined i k hk hs =>
        have hlt : ({ w1 with workers := w1.workers.eraseIdx i } : World).remaining n <
            w1.remaining n := by
          rw [remaining, remaining, sum_map_eraseIdx hk]
          exact Nat.lt_add_of_pos_left (k.remaining_pos n)
        have hcustody := hc.join hk hs
        have hanswering := h1.join hk
        rw [List.append_assoc] at hcustody hanswering
        exact ⟨_, hlt, hd, hf, hcustody, hanswering, hdials, ⟨es, ht.join hk hs⟩, rfl⟩
      | ended he => exact ⟨hf, h1⟩
  refine ⟨w1, Client.sortById c.clients, ?_, ?_⟩
  · obtain ⟨enough, hok⟩ := hwait
    refine ⟨enough, fun fuel hfuel => ?_⟩
    have hok := hok fuel hfuel
    dsimp only at hok ⊢
    simp only [joinAll, Option.map_none, hok, hfirst, hw1.failures]
  · exact hw1.perm ((List.mergeSort_perm ..).symm.append_left _)

end World

end EchoLoad
