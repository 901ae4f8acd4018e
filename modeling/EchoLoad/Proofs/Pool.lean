import EchoLoad.Proofs.Wait
import EchoLoad.Workload.Session
/-!
Many clients at once in the books: a pool grows batch by batch, loops are started for clients in
hand, and clients are closed. Main statements: `growPool_ledger`, `spawn_ledger` and
`closeAll_ledger`.
-/

namespace EchoLoad

namespace World

variable {set : Setting} {o : ClientOptions} {a : Account} {w w' : World} {fuel : Nat}

/-! ## Starting loops -/

theorem spawnAll_eq (set : Setting) (plan : EchoPlan) (clients : List Client) (w : World) :
    clients.foldl (spawn set plan) w = { w with
      workers := w.workers ++ clients.map (w.newLoop set plan) } := by
  induction clients generalizing w with
  | nil => simp
  | cons c clients ih => simp [ih, spawn, newLoop]

theorem spawn_ledger (set : Setting) (plan : EchoPlan) {clients : List Client}
    (hl : Ledger o { a with held := clients ++ a.held } w) (hq : w.NoBatch)
    (hopen : ∀ c ∈ clients, c.isOpen = true) :
    Ledger o a (clients.foldl (spawn set plan) w) ∧
      (clients.foldl (spawn set plan) w).NoBatch := by
  induction clients generalizing w with
  | nil => exact ⟨hl, hq⟩
  | cons c clients ih =>
    exact ih (Ledger.spawn (a := a) hl (hopen c List.mem_cons_self))
      ⟨hq.dials, hq.connected, hq.refusals⟩ fun x hx => hopen x (List.mem_cons_of_mem _ hx)

/-! ## Closing -/

theorem closeBatch_ledger (clients held : List Client)
    (hl : Ledger o { a with held := clients ++ held } w) :
    Ledger o { a with held, closed := a.closed + (w.closeBatch clients).2 }
      (w.closeBatch clients).1 := by
  induction clients generalizing a w with
  | nil => exact hl
  | cons c clients ih =>
    have hl := ih (a := { a with closed := a.closed + if c.isOpen = true then 1 else 0 })
      (Ledger.close (a := a) hl)
    simpa only [closeBatch, List.foldl_cons, List.countP_cons, Nat.add_assoc,
      Nat.add_comm (List.countP _ _)] using hl

theorem foldl_keeps {α : Type} {P : World → Prop} {f : World → α → World}
    (hf : ∀ w a, P w → P (f w a)) (l : List α) (hw : P w) : P (l.foldl f w) := by
  induction l generalizing w with
  | nil => exact hw
  | cons a l ih => exact ih (hf w a hw)

theorem closeBatch_keeps {P : World → Prop} (hclose : ∀ w c, P w → P (w.close c))
    (clients : List Client) (hw : P w) : P (w.closeBatch clients).1 :=
  foldl_keeps hclose clients hw

/-- Closing is seen in the connections and in the journal only. -/
theorem closeBatch_frame (clients : List Client) (w : World) :
    ∃ network journal, (w.closeBatch clients).1 = { w with network, journal } := by
  refine closeBatch_keeps (P := fun w1 => ∃ network journal, w1 = { w with network, journal })
    ?_ clients ⟨_, _, rfl⟩
  rintro w1 c ⟨network, journal, rfl⟩
  unfold World.close
  split <;> exact ⟨_, _, rfl⟩

theorem drop_batch_lt {clients : List Client} (batch : Nat) (hne : clients ≠ []) :
    (clients.drop (max batch 1)).length < clients.length := by
  have hpos := List.length_pos_iff.2 hne
  rw [List.length_drop]
  omega

/-- **Closing keeps what a batch and a pause keep.** `I` holds of the clients that are still to be
closed and of the number of those that were open. -/
theorem closeAll_rule {I : List Client → Nat → World → Prop} {batch m n : Nat} {pause : Duration}
    {clients : List Client}
    (hclose : ∀ first rest n w, I (first ++ rest) n w →
      I rest (n + (w.closeBatch first).2) (w.closeBatch first).1)
    (hsleep : ∀ rest n w w', I rest n w → w.sleep set fuel pause = .ok w' → I rest n w')
    (hi : I clients m w) (h : w.closeAll set fuel batch pause clients = .ok (w', n)) :
    I [] (m + n) w' := by
  induction hn : clients.length using Nat.strong_induction_on generalizing clients w m n with
  | _ len ih =>
    unfold closeAll at h
    split at h
    · next he =>
      cases h
      exact he ▸ hi
    · next hne =>
      dsimp only at h
      have hclosed := hclose (clients.take (max batch 1)) (clients.drop (max batch 1)) m w
        (by rwa [List.take_append_drop])
      split at h
      · cases h
      · next w1 hp =>
        have hpaused : I (clients.drop (max batch 1))
            (m + (w.closeBatch (clients.take (max batch 1))).2) w1 := by
          split at hp
          · cases hp
            exact hclosed
          · exact hsleep _ _ _ _ hclosed hp
        obtain ⟨⟨w2, k⟩, hrest, he⟩ := map_eq_ok.1 h
        cases he
        rw [← Nat.add_assoc]
        exact ih _ (hn ▸ drop_batch_lt batch hne) hpaused hrest rfl

/-- **Closing.** All clients leave the hands of the controller, and those that were open are
counted as closed. -/
theorem closeAll_ledger {clients : List Client} {batch n : Nat} {pause : Duration}
    (hl : Ledger set.options { a with held := clients } w) (hq : w.NoBatch)
    (h : w.closeAll set fuel batch pause clients = .ok (w', n)) :
    Ledger set.options { a with held := [], closed := a.closed + n } w' ∧ w'.NoBatch ∧
      w.NoneStarted w' := by
  have hall := closeAll_rule (m := 0) (I := fun held m w1 =>
    Ledger set.options { a with held, closed := a.closed + m } w1 ∧ w1.NoBatch ∧ w.NoneStarted w1)
    ?_ ?_ ⟨hl, hq, .refl _⟩ h
  · rwa [Nat.zero_add] at hall
  · rintro first rest m w1 ⟨hl1, hq1, hw1⟩
    have hl2 := closeBatch_ledger (a := { a with closed := a.closed + m }) first rest hl1
    refine ⟨by simpa only [Nat.add_assoc] using hl2, ?_⟩
    obtain ⟨network, journal, he⟩ := closeBatch_frame first w1
    rw [he]
    exact ⟨⟨hq1.dials, hq1.connected, hq1.refusals⟩, hw1.trans fun hw => ⟨hw, rfl⟩⟩
  · rintro rest m w1 w2 ⟨hl1, hq1, hw1⟩ hs
    obtain ⟨hl2, hq2⟩ := sleep_ledger hl1 hq1 hs
    exact ⟨hl2, hq2, hw1.trans (sleep_noneStarted hs)⟩

/-- Without pauses clients are closed at one instant, however large a batch is. -/
theorem closeAll_zero (set : Setting) (fuel batch : Nat) (clients : List Client) (w : World) :
    w.closeAll set fuel batch 0 clients = .ok (w.closeBatch clients) := by
  induction hn : clients.length using Nat.strong_induction_on generalizing clients w with
  | _ len ih =>
    unfold closeAll
    split
    · next he =>
      subst he
      rfl
    · next hne =>
      have hsplit : w.closeBatch clients =
          (((w.closeBatch (clients.take (max batch 1))).1.closeBatch
              (clients.drop (max batch 1))).1,
            (w.closeBatch (clients.take (max batch 1))).2 +
              ((w.closeBatch (clients.take (max batch 1))).1.closeBatch
                (clients.drop (max batch 1))).2) := by
        simp only [World.closeBatch, ← List.foldl_append, ← List.countP_append,
          List.take_append_drop]
      simp only [or_true, if_true]
      rw [ih _ (hn ▸ drop_batch_lt batch hne) _ _ rfl, hsplit]
      rfl

/-! ## Establishing -/

theorem growPool_refused {target batch batches : Nat} {pool : PoolOutcome} {out : BatchOutcome}
    {seen : Option Failure} {e : ClientError} {rest : List ClientError}
    (hroom : ¬ target ≤ pool.clients.length) (hstopped : w.stopped = false)
    (h : w.connectBatch set fuel pool.clients.length
      (min (max batch 1) (target - pool.clients.length)) false = .ok (w', out, seen))
    (hr : out.refusals = e :: rest) :
    growPool set fuel target batch (batches + 1) pool w =
      .ok (w', { clients := pool.clients ++ out.connected, failure := some e }) := by
  simp only [growPool, if_neg hroom, hstopped, h, hr]
  rfl

theorem growPool_goes_on {target batch batches : Nat} {pool : PoolOutcome} {out : BatchOutcome}
    {seen : Option Failure} (hroom : ¬ target ≤ pool.clients.length) (hstopped : w.stopped = false)
    (h : w.connectBatch set fuel pool.clients.length
      (min (max batch 1) (target - pool.clients.length)) false = .ok (w', out, seen))
    (hr : out.refusals = []) :
    growPool set fuel target batch (batches + 1) pool w = growPool set fuel target batch batches
      { pool with clients := pool.clients ++ out.connected } w' := by
  simp only [growPool, if_neg hroom, hstopped, h, hr]
  rfl

/-- **Growing a pool keeps what a batch keeps.** `I` holds of the pool as long as it grows, and `Q`
of what comes of it. -/
theorem growPool_rule {target batch batches : Nat} {pool pool' : PoolOutcome}
    {I : PoolOutcome → World → Prop} {Q : World → PoolOutcome → Prop}
    (hend : ∀ pool w, I pool w → Q w pool)
    (hgrow : ∀ pool w w' size out seen, I pool w →
      w.connectBatch set fuel pool.clients.length size false = .ok (w', out, seen) →
      out.refusals = [] → I { pool with clients := pool.clients ++ out.connected } w')
    (hfail : ∀ pool w w' size out seen e rest, I pool w →
      w.connectBatch set fuel pool.clients.length size false = .ok (w', out, seen) →
      out.refusals = e :: rest →
      Q w' { clients := pool.clients ++ out.connected, failure := some e })
    (hi : I pool w) (h : growPool set fuel target batch batches pool w = .ok (w', pool')) :
    Q w' pool' := by
  induction batches generalizing pool w with
  | zero =>
    cases h
    exact hend _ _ hi
  | succ batches ih =>
    unfold growPool at h
    dsimp only at h
    split at h
    · cases h
      exact hend _ _ hi
    split at h
    · cases h
      exact hend _ _ hi
    split at h
    · cases h
    next w1 out seen hc =>
    split at h
    · next e rest hr =>
      cases h
      exact hfail _ _ _ _ _ _ _ _ hi hc hr
    · next hr => exact ih (hgrow _ _ _ _ _ _ hi hc hr) h

theorem growPool_ledger {target batch batches : Nat} {pool pool' : PoolOutcome}
    (hl : Ledger set.options { held := pool.clients } w) (hq : w.NoBatch)
    (hlen : w.network.connections.length = pool.clients.length) (hnone : pool.failure = none)
    (h : growPool set fuel target batch batches pool w = .ok (w', pool')) :
    ∃ refused, Ledger set.options { held := pool'.clients, refused } w' ∧ w'.NoBatch ∧
      pool'.failure = refused.head? ∧ w.NoneStarted w' := by
  refine growPool_rule (I := fun pool w1 => Ledger set.options { held := pool.clients } w1 ∧
      w1.NoBatch ∧ w1.network.connections.length = pool.clients.length ∧ pool.failure = none ∧
      w.NoneStarted w1)
    (Q := fun w1 pool => ∃ refused, Ledger set.options { held := pool.clients, refused } w1 ∧
      w1.NoBatch ∧ pool.failure = refused.head? ∧ w.NoneStarted w1)
    ?_ ?_ ?_ ⟨hl, hq, hlen, hnone, .refl _⟩ h
  · exact fun _ _ ⟨hl, hq, _, hnone, hw⟩ => ⟨[], hl, hq, hnone, hw⟩
  · rintro pool w1 w2 size out seen ⟨hl1, hq1, hlen1, hnone1, hw1⟩ hc hr
    rw [← hlen1] at hc
    obtain ⟨hl2, hq2, -, hsize, hlen2, hseen⟩ := connectBatch_ledger hl1 hq1 hc
    obtain ⟨rfl, hw2⟩ := hseen rfl
    rw [hr] at hl2 hsize
    refine ⟨hl2, hq2, ?_, hnone1, hw1.trans hw2⟩
    rw [hlen2, ← hsize, hlen1, List.length_append]
    rfl
  · rintro pool w1 w2 size out seen e rest ⟨hl1, hq1, hlen1, -, hw1⟩ hc hr
    rw [← hlen1] at hc
    obtain ⟨hl2, hq2, -, -, -, hseen⟩ := connectBatch_ledger hl1 hq1 hc
    obtain ⟨rfl, hw2⟩ := hseen rfl
    exact ⟨out.refusals, hl2, hq2, by rw [hr]; rfl, hw1.trans hw2⟩

end World

theorem Session.writeSeries_world {output : Output} {series : String} {samples : List Duration}
    {s s' : Session} (h : s.writeSeries output series samples = .ok s') : s'.world = s.world := by
  obtain ⟨store, -, rfl⟩ := map_eq_ok.1 h
  rfl

theorem Session.writeSeries_ok {output : Output} {series : String} (samples : List Duration)
    {s : Session} {l : Location} (h : s.store.writable (output.path series "csv") = .ok l) :
    ∃ c, s.writeSeries output series samples = .ok { s with store := s.store.put l (.file c) } := by
  refine ⟨.text (Output.seriesText (samples.map Duration.seconds)), ?_⟩
  rw [writeSeries, Output.writeSeries, Store.write, h]
  rfl

end EchoLoad
