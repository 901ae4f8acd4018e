import EchoLoad.Proofs.Workload.Issues
/-!
Batches never overlap. No attempt of a batch begins before all members of the batches before it have
connected, in a ramp before they have done a first round too, and no client is closed before all those
of the batches before it. Main statement: `batch_barrier`.
-/

namespace EchoLoad

namespace World

variable {set : Setting} {fuel target batch batches : Nat} {pool : PoolOutcome} {w w' : World}
  {xs : List Issue} {clients : List Client}

/-! ## The batches of a pool -/

/-- The batches that are issued for a pool from some batch on. -/
def poolIssues (set : Setting) (fuel target batch : Nat) : Nat → PoolOutcome → World → List Issue
  | 0, _, _ => []
  | batches + 1, pool, w =>
    let count := pool.clients.length
    if target ≤ count then []
    else if w.stopped then []
    else
      let size := min (max batch 1) (target - count)
      ⟨w, count, size⟩ ::
        match w.connectBatch set fuel count size false with
        | .error _ => []
        | .ok (w, resolved, _) =>
          match resolved.refusals with
          | _ :: _ => []
          | [] =>
            poolIssues set fuel target batch batches
              { pool with clients := pool.clients ++ resolved.connected } w

/-- A batch is issued when everyone before it has connected. -/
def AllConnected (x : Issue) : Prop :=
  ∀ n < x.first, lived n 0 <:+ fiber Event.client n x.world.events

theorem lived_of_decided {n : Nat} {es : List Event} (h : Decided n es)
    (hclean : ∀ e ∈ es, e.failedAttempt? = none) : lived n 0 <:+ es := by
  cases h with
  | declined e => exact absurd (hclean _ List.mem_cons_self) (Option.some_ne_none e)
  | lived later rounds =>
    exact (lived_suffix n (Nat.zero_le rounds)).trans (List.suffix_append later _)

theorem growPool_issued (batches : Nat) (pool : PoolOutcome) (h : Issued xs w.events) :
    Leaves (fun w' => Issued (xs ++ poolIssues set fuel target batch batches pool w) w'.events)
      (fun x => Issued (xs ++ poolIssues set fuel target batch batches pool w) x.1.events)
      (growPool set fuel target batch batches pool w) := by
  have hnone : ∀ {xs : List Issue} {w : World}, Issued xs w.events → Issued (xs ++ []) w.events :=
    fun h => (List.append_nil _).symm ▸ h
  induction batches generalizing xs pool w with
  | zero => exact hnone h
  | succ batches ih =>
    unfold growPool poolIssues
    dsimp only
    split
    · exact hnone h
    · split
      · exact hnone h
      · generalize min (max batch 1) (target - pool.clients.length) = size
        have hbatch := connectBatch_waits (Issued.lasting set _).anyPlan fuel false
          (h.dialBatch set pool.clients.length size)
        rw [List.append_cons]
        rcases hc : w.connectBatch set fuel pool.clients.length size false with
          stop | ⟨w1, out, seen⟩ <;> rw [hc] at hbatch
        · exact hnone hbatch
        · obtain ⟨w2, hw2, rfl, -⟩ := hbatch
          dsimp only
          cases out.refusals with
          | nil => exact ih _ hw2
          | cons e rest => exact hnone hw2

/-- **The batches of a pool** follow each other, each issued when all before it have connected. -/
theorem growPool_series (batches : Nat) (pool : PoolOutcome)
    (hl : Ledger set.options { held := pool.clients } w) (hq : w.NoBatch)
    (hlen : w.network.connections.length = pool.clients.length) :
    Series AllConnected pool.clients.length (poolIssues set fuel target batch batches pool w) := by
  induction batches generalizing pool w with
  | zero => trivial
  | succ batches ih =>
    unfold poolIssues
    dsimp only
    split
    · trivial
    · split
      · trivial
      · generalize min (max batch 1) (target - pool.clients.length) = size
        have hattempts : w.failedAttempts = [] := hq.failedAttempts_eq hl
        refine ⟨rfl, fun n hlt => ?_, ?_⟩
        · refine lived_of_decided (decided_of_lt hl.custody hq.dials (hlen.symm ▸ hlt)) fun e he => ?_
          have he := List.mem_reverse.2 (mem_fiber.1 he).1
          exact List.filterMap_eq_nil_iff.1 hattempts e he
        · cases hc : w.connectBatch set fuel pool.clients.length size false with
          | error stop => trivial
          | ok x =>
            obtain ⟨w1, out, seen⟩ := x
            rw [← hlen] at hc
            obtain ⟨hl1, hq1, -, hsize, hlen1, hseen⟩ := connectBatch_ledger hl hq hc
            obtain ⟨rfl, -⟩ := hseen rfl
            dsimp only
            cases hr : out.refusals with
            | cons e rest => trivial
            | nil =>
              rw [hr] at hl1 hsize
              have hgrown : (pool.clients ++ out.connected).length = pool.clients.length + size := by
                rw [List.length_append, ← hsize]
                rfl
              have hrest := ih { pool with clients := pool.clients ++ out.connected } hl1 hq1
                (hlen1.trans (by rw [hlen, hgrown]))
              exact hgrown ▸ hrest

/-! ## Clients that are closed -/

/-- Between `w` and `w'` the clients given were closed in batches: whoever was closed is one of them,
and everyone open in the batches before was closed earlier. -/
def ClosedInBatches (clients : List Client) (batch : Nat) (w w' : World) : Prop :=
  ∃ es, w'.events = es ++ w.events ∧ ∀ n earlier, .closed n :: earlier <:+ es →
    ∃ i c, clients[i]? = some c ∧ c.isOpen = true ∧ c.id = n ∧
      ∀ d ∈ clients.take (i / max batch 1 * max batch 1), d.isOpen = true → .closed d.id ∈ earlier

/-- What closing some clients leaves in the journal, in order of time. -/
def closings? (clients : List Client) : List Event :=
  (clients.filter Client.isOpen).map fun c => .closed c.id

/-- Between `w` and `w'` some of the clients given were closed, the first ones first. -/
def ClosedInOrder (clients : List Client) (w w' : World) : Prop :=
  ∃ es, w'.events = es ++ w.events ∧ es.reverse.filter Event.isClosing <+: closings? clients

theorem closeBatch_events (clients : List Client) (w : World) :
    (w.closeBatch clients).1.events = (closings? clients).reverse ++ w.events := by
  induction clients generalizing w with
  | nil => rfl
  | cons c clients ih =>
    refine (ih (w.close c)).trans ?_
    unfold closings? close
    by_cases hopen : c.isOpen = true
    · rw [if_pos hopen, List.filter_cons_of_pos hopen, List.map_cons, List.reverse_cons,
        List.append_assoc]
      rfl
    · rw [if_neg hopen, List.filter_cons_of_neg hopen]

theorem closings?_append (first rest : List Client) :
    closings? (first ++ rest) = closings? first ++ closings? rest := by
  rw [closings?, List.filter_append, List.map_append]
  rfl

theorem closings?_isClosing (clients : List Client) :
    (closings? clients).filter Event.isClosing = closings? clients := by
  refine List.filter_eq_self.2 fun e he => ?_
  obtain ⟨c, -, rfl⟩ := List.mem_map.1 he
  rfl

theorem ClosedInOrder.after {first rest : List Client} {w₀ : World} {es : List Event}
    (hes : w.events = es ++ w₀.events)
    (hfirst : es.reverse.filter Event.isClosing = closings? first) (h : ClosedInOrder rest w w') :
    ClosedInOrder (first ++ rest) w₀ w' := by
  obtain ⟨es', hes', horder⟩ := h
  refine ⟨es' ++ es, by rw [hes', hes, List.append_assoc], ?_⟩
  rw [List.reverse_append, List.filter_append, hfirst, closings?_append]
  exact (List.prefix_append_right_inj _).2 horder

/-- **Clients are closed in order.** -/
theorem closeAll_order {pause : Duration} :
    Leaves (ClosedInOrder clients w) (fun x => ClosedInOrder clients w x.1)
      (w.closeAll set fuel batch pause clients) := by
  have hnone : ∀ {clients w}, ClosedInOrder clients w w :=
    fun {clients w} => ⟨[], rfl, List.nil_prefix⟩
  induction hn : clients.length using Nat.strong_induction_on generalizing clients w with
  | _ len ih =>
    unfold closeAll
    split
    · exact hnone
    · next hne =>
      have hlen : (clients.drop (max batch 1)).length < len := hn ▸ drop_batch_lt batch hne
      have hsplit := List.take_append_drop (max batch 1) clients
      generalize hfirst : clients.take (max batch 1) = first at hsplit
      generalize hrest : clients.drop (max batch 1) = rest at hsplit hlen
      subst hsplit
      let P (w1 : World) : Prop :=
        ∃ es, w1.events = es ++ w.events ∧ es.reverse.filter Event.isClosing = closings? first
      have hbatch : P (w.closeBatch first).1 :=
        ⟨_, closeBatch_events first w, by rw [List.reverse_reverse, closings?_isClosing]⟩
      have hlasting : Lasting set P := by
        rintro w1 w2 ⟨es, hes, horder⟩ hd
        obtain ⟨es', hes', hnone⟩ := hd.events
        refine ⟨es' ++ es, by rw [hes', hes, List.append_assoc], ?_⟩
        have hwait : es'.reverse.filter Event.isClosing = [] :=
          List.filter_eq_nil_iff.2 fun e he => by simp [(hnone e (List.mem_reverse.1 he)).2]
        rw [List.reverse_append, List.filter_append, horder, hwait, List.append_nil]
      have hpause : Leaves P P (if rest = [] ∨ pause = 0 then .ok (w.closeBatch first).1
          else (w.closeBatch first).1.sleep set fuel pause) := by
        split
        · exact hbatch
        · exact sleep_leaves hlasting.anyPlan hbatch
      dsimp only
      split
      · next stop he =>
        rw [he] at hpause
        obtain ⟨es, hes, horder⟩ := hpause
        exact .after hes horder hnone
      · next w1 he =>
        obtain ⟨es, hes, horder⟩ := hpause.ok he
        exact ((ih _ hlen rfl).mono (fun _ h => h.after hes horder) fun _ _ h =>
          h.after hes horder).map fun _ h => h

/-- **Whoever is closed in order is closed in batches**, whatever their size. -/
theorem ClosedInOrder.inBatches (h : ClosedInOrder clients w w') (batch : Nat) :
    ClosedInBatches clients batch w w' := by
  obtain ⟨es, hes, horder⟩ := h
  refine ⟨es, hes, ?_⟩
  rintro n earlier ⟨later, rfl⟩
  rw [List.reverse_append, List.reverse_cons, List.append_assoc, List.filter_append] at horder
  obtain ⟨after, hclosings⟩ := horder
  rw [List.append_assoc] at hclosings
  obtain ⟨before, more, hopen, hbefore, hmore⟩ := List.map_eq_append_iff.1 hclosings.symm
  obtain ⟨c, rest, rfl, hc, -⟩ := List.map_eq_cons_iff.1 hmore
  obtain ⟨front, back, rfl, hfront, hback⟩ := List.filter_eq_append_iff.1 hopen
  obtain ⟨skipped, rest, rfl, hskipped, hc', -⟩ := List.filter_eq_cons_iff.1 hback
  rw [← List.append_assoc]
  refine ⟨(front ++ skipped).length, c, by simp, hc', Event.closed.inj hc, fun d hd hdopen => ?_⟩
  have hd : d ∈ front ++ skipped := by
    rw [List.take_append_of_le_length (Nat.div_mul_le_self _ _)] at hd
    exact List.mem_of_mem_take hd
  have hmem : d ∈ before := by
    rw [← hfront, List.mem_filter]
    refine ⟨(List.mem_append.1 hd).resolve_right fun hd => hskipped d hd hdopen, hdopen⟩
  have hclosed : .closed d.id ∈ earlier.reverse.filter Event.isClosing :=
    hbefore ▸ List.mem_map_of_mem hmem
  exact List.mem_reverse.1 (List.mem_filter.1 hclosed).1

end World

open World

/-- **Batches never overlap.** Whether or not it comes to an end: in a run of a ramp every attempt is
made in one of its batches, and when it begins every client of the batches before has connected and
had its first round echoed; in the establishment of a pool every client of the batches before has
connected; and when clients are closed batch by batch, everyone open in the batches before is closed
when one is closed. A client has connected when its handshake is verified. -/
theorem batch_barrier (set : Setting) (fuel : Nat) :
    (∀ s o session, session.world.Fresh →
      Leaves (Barrier (Ramp.runIssues set fuel s session) (lived · 1))
        (fun x => Barrier (Ramp.runIssues set fuel s session) (lived · 1) x.1.world)
        (Ramp.run set fuel s o session)) ∧
    (∀ target batch w, w.Fresh →
      Leaves (Barrier (poolIssues set fuel target batch target {} w) (lived · 0))
        (fun x => Barrier (poolIssues set fuel target batch target {} w) (lived · 0) x.1)
        (w.establishPool set fuel target batch)) ∧
    ∀ batch pause clients w, Leaves (ClosedInBatches clients batch w)
      (fun x => ClosedInBatches clients batch w x.1)
      (w.closeAll set fuel batch pause clients) := by
  refine ⟨fun s o session hw => ?_, fun target batch w hw => ?_, fun batch pause clients w => ?_⟩
  · have hbarrier : ∀ w, Issued (Ramp.runIssues set fuel s session) w.events →
        Barrier (Ramp.runIssues set fuel s session) (lived · 1) w :=
      fun w h => (Ramp.runIssues_series set fuel s hw).barrier h fun x hx => hx.admitted
    exact (Ramp.run_issued hw).mono hbarrier fun x _ h => hbarrier x.1.world h
  · have hstart : Issued [] w.events := by
      rw [show w.events = [] from congrArg (List.map Prod.snd) hw.journal]
      exact .start
    have hseries : Series AllConnected 0 (poolIssues set fuel target batch target {} w) :=
      growPool_series target {} (.of_fresh hw) hw.noBatch
        (congrArg List.length hw.connections)
    have hbarrier : ∀ w', Issued (poolIssues set fuel target batch target {} w) w'.events →
        Barrier (poolIssues set fuel target batch target {} w) (lived · 0) w' :=
      fun w' h => hseries.barrier h fun x hx => hx
    exact (growPool_issued target {} hstart).mono hbarrier fun x _ h => hbarrier x.1 h
  · exact closeAll_order.mono (fun _ h => h.inBatches batch) fun _ _ h => h.inBatches batch

/-- Two batches of one client each, in a ramp and in a pool. When the second attempt begins the first
client has connected, in the ramp it has done a round too. -/
theorem batch_barrier_two :
    (∃ session' r, Ramp.run { source := SplitMix.source #[] 0 } 40
        { batchSize := 1, payload := .fixed 0, maxClients := some 2 } ⟨".", "r"⟩ { world := {} } =
          .ok (session', .ok r) ∧
      session'.world.attempted = [0, 1] ∧
      ∀ earlier, .attempt 1 :: earlier <:+ session'.world.events →
        lived 0 1 <:+ fiber Event.client 0 earlier) ∧
    ∃ w' pool, ({} : World).establishPool { source := SplitMix.source #[] 0 } 40 2 1 =
        .ok (w', pool) ∧
      w'.attempted = [0, 1] ∧
      ∀ earlier, .attempt 1 :: earlier <:+ w'.events → lived 0 0 <:+ fiber Event.client 0 earlier := by
  have hsecond : ∀ (history : Nat → List Event) {xs : List Issue} {w : World}, Barrier xs history w →
      xs.map Issue.ids = [[0], [1]] → ∀ earlier, .attempt 1 :: earlier <:+ w.events →
      history 0 <:+ fiber Event.client 0 earlier := by
    intro history xs w h hids earlier hn
    obtain ⟨before, x, after, rfl, hx, hbefore⟩ := h 1 earlier hn
    match before, hids, hbefore with
    | [], hids, _ =>
      have hfirst : x.ids = [0] := (List.cons.inj hids).1
      rw [hfirst] at hx
      exact absurd hx (by decide)
    | y :: before, hids, hbefore =>
      have hfirst : y.ids = [0] := (List.cons.inj hids).1
      exact hbefore y List.mem_cons_self 0 (hfirst ▸ List.mem_singleton_self 0)
  let session : Session := { world := {} }
  have hfresh : session.world.Fresh := ⟨rfl, rfl, rfl, rfl, rfl, rfl, rfl, rfl⟩
  obtain ⟨hramp, hpool, -⟩ := batch_barrier { source := SplitMix.source #[] 0 } 40
  constructor
  · have hrun : ((Ramp.run { source := SplitMix.source #[] 0 } 40
        { batchSize := 1, payload := .fixed 0, maxClients := some 2 } ⟨".", "r"⟩
        { world := {} }).toOption.any fun x => x.1.world.attempted = [0, 1] ∧
          x.2.toOption.any fun _ => true) = true := by
      decide +kernel
    obtain ⟨⟨session', result⟩, h, hresult⟩ := toOption_any.1 hrun
    obtain ⟨hattempted, hreport⟩ := of_decide_eq_true hresult
    obtain ⟨r, rfl, -⟩ := toOption_any.1 hreport
    have hbarrier := (hramp _ ⟨".", "r"⟩ session hfresh).ok h
    exact ⟨session', r, h, hattempted, hsecond (lived · 1) hbarrier (by decide +kernel)⟩
  · have hrun : ((({} : World).establishPool { source := SplitMix.source #[] 0 } 40 2 1).toOption.any
        fun x => x.1.attempted = [0, 1]) = true := by
      decide +kernel
    obtain ⟨⟨w', pool⟩, h, hattempted⟩ := toOption_any.1 hrun
    have hbarrier := (hpool 2 1 {} hfresh).ok h
    exact ⟨w', pool, h, of_decide_eq_true hattempted, hsecond (lived · 0) hbarrier (by decide +kernel)⟩

end EchoLoad
