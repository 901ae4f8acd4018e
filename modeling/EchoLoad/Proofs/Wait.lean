import EchoLoad.Proofs.Ledger
/-!
What each wait of a controller leaves in the books: a sleep, a pause, a batch that connects, and
echo loops that are waited for. Main statements: `connectBatch_ledger`, `drain_ledger` and
`joinAll_ledger`.
-/

namespace EchoLoad

structure World.NoBatch (w : World) : Prop where
  dials : w.dials = []
  connected : w.connected = []
  refusals : w.refusals = []

theorem Client.sortById_perm (clients : List Client) : (Client.sortById clients).Perm clients :=
  List.mergeSort_perm ..

theorem Client.sortById_sorted (clients : List Client) :
    ((Client.sortById clients).map Client.id).Pairwise (· ≤ ·) := by
  have hpairs := @List.pairwise_mergeSort _ (fun a b : Client => decide (a.id ≤ b.id))
    (fun a b c hab hbc => by simp only [decide_eq_true_eq] at *; omega)
    (fun a b => by simp only [Bool.or_eq_true, decide_eq_true_eq]; omega) clients
  simpa only [Client.sortById, List.pairwise_map, decide_eq_true_eq] using hpairs

/-- If no loop runs then none has started or failed since. -/
def World.NoneStarted (w w' : World) : Prop :=
  w.workers = [] → w'.workers = [] ∧ w'.failures = w.failures

namespace World

variable {set : Setting} {a : Account} {w w' : World} {fuel : Nat}

theorem NoneStarted.refl (w : World) : w.NoneStarted w := fun hw => ⟨hw, rfl⟩

theorem NoneStarted.trans {w'' : World} (h : w.NoneStarted w') (h' : w'.NoneStarted w'') :
    w.NoneStarted w'' := by
  intro hw
  obtain ⟨h1, h2⟩ := h hw
  obtain ⟨h3, h4⟩ := h' h1
  exact ⟨h3, h4.trans h2⟩

theorem Fresh.noBatch (h : w.Fresh) : w.NoBatch := ⟨h.dials, h.connected, h.refusals⟩

/-- Between two batches each attempt that failed is in the books. -/
theorem NoBatch.failedAttempts_eq {o : ClientOptions} (hq : w.NoBatch) (hl : Ledger o a w) :
    w.failedAttempts = a.refused := by
  rw [hl.attempts, hq.refusals, List.append_nil]

theorem InternalStep.noBatch (hs : InternalStep set w w') (h : w.NoBatch) : w'.NoBatch := by
  cases hs with
  | signal =>
    unfold interrupted
    split <;> exact ⟨h.dials, h.connected, h.refusals⟩
  | arrived hd | declined hd => simp [h.dials] at hd
  | _ => exact ⟨h.dials, h.connected, h.refusals⟩

theorem InternalStep.noneStarted (hs : InternalStep set w w') : w.NoneStarted w' := by
  intro hw
  cases hs with
  | signal =>
    unfold interrupted
    split <;> exact ⟨hw, rfl⟩
  | arrived | declined => exact ⟨hw, rfl⟩
  | echoed hk | broken hk | start hk | retire hk => simp [hw] at hk

theorem ledger_tick {o : ClientOptions} (h : Ledger o a w) (t : Duration) :
    Ledger o a (w.tick t) :=
  ⟨h.custody, h.rounds, h.attempts, h.joins, h.closed, h.isOpen⟩

/-- **The books over a wait.** While the controller waits in state `s` its account is `acc s`, and
no batch is under way. -/
theorem attend_ledger {σ ρ : Type} {watch : Watch σ ρ} (acc : σ → Account)
    {Q : World → ρ → Prop}
    (hwakeup : ∀ s w w' b, Ledger set.options (acc s) w → w.NoBatch →
      Wakes (watch.waiting s) w w' b →
      match watch.react s b w' with
      | (w'', .inl s') => Ledger set.options (acc s') w'' ∧ w''.NoBatch
      | (w'', .inr r) => Q w'' r)
    {s : σ} {r : ρ} (hl : Ledger set.options (acc s) w) (hq : w.NoBatch)
    (h : w.attend set watch fuel s = .ok (w', r)) : Q w' r := by
  refine attend_rule (I := fun s w => Ledger set.options (acc s) w ∧ w.NoBatch) ?_ ?_ ?_ ⟨hl, hq⟩ h
  · exact fun s w t h => ⟨ledger_tick h.1 t, h.2.dials, h.2.connected, h.2.refusals⟩
  · exact fun s w w' h hs => ⟨h.1.internalStep hs, hs.noBatch h.2⟩
  · exact fun s w w' b h hr => hwakeup s w w' b h.1 h.2 hr

theorem attend_noneStarted {σ ρ : Type} {watch : Watch σ ρ}
    (hmail : ∀ s, (watch.waiting s).mail = false)
    (hreact : ∀ s b w, (watch.react s b w).1.workers = w.workers ∧
      (watch.react s b w).1.failures = w.failures) {s : σ} {r : ρ}
    (h : w.attend set watch fuel s = .ok (w', r)) : w.NoneStarted w' := by
  refine attend_rule (I := fun _ => w.NoneStarted) (Q := fun w1 _ => w.NoneStarted w1)
    (fun _ _ _ h => h) (fun _ _ _ h hs => h.trans hs.noneStarted) ?_ (.refl w) h
  intro s w1 w2 b hw hr
  have hw2 : w1.NoneStarted w2 := by
    cases hr with
    | mail hm => rw [hmail] at hm; cases hm
    | joined hk => intro h; simp [h] at hk
    | _ => exact .refl _
  have hreact := hreact s b w2
  have hw3 : w.NoneStarted (watch.react s b w2).1 :=
    (hw.trans hw2).trans fun h => ⟨hreact.1.trans h, hreact.2⟩
  split <;> next he => rwa [he] at hw3

theorem echoRound_length (o : ClientOptions) (c : Client) (now : Duration) (payload : Bytes)
    (net : Network) :
    (c.echoRound o now payload net).network.connections.length = net.connections.length := by
  have hex : ∀ c : Client, (c.exchange o now payload net).network.connections.length =
      net.connections.length := by
    intro c
    unfold Client.exchange
    split
    · rfl
    · split <;> exact List.length_modify ..
  unfold Client.echoRound
  split
  · dsimp only
    split <;> exact hex _
  · rfl

theorem InternalStep.connections_length (hs : InternalStep set w w') :
    w'.network.connections.length = w.network.connections.length := by
  cases hs with
  | signal =>
    unfold interrupted
    split <;> rfl
  | start => exact echoRound_length ..
  | _ => rfl

theorem attend_connections {σ ρ : Type} {watch : Watch σ ρ}
    (hreact : ∀ s b w, (watch.react s b w).1.network = w.network) {s : σ} {r : ρ}
    (h : w.attend set watch fuel s = .ok (w', r)) :
    w'.network.connections.length = w.network.connections.length := by
  refine attend_rule (I := fun _ w1 => w1.network.connections.length = w.network.connections.length)
    (Q := fun w1 _ => w1.network.connections.length = w.network.connections.length)
    (fun _ _ _ h => h) (fun _ _ _ h hs => hs.connections_length.trans h) ?_ rfl h
  intro s w1 w2 b hw hr
  have hw2 : w2.network.connections.length = w.network.connections.length := by
    cases hr <;> exact hw
  have hreact := hreact s b w2
  split <;> next he => rw [he] at hreact; rwa [hreact]

/-! ## Sleeping and pausing -/

theorem sleep_ledger {d : Duration} (hl : Ledger set.options a w) (hq : w.NoBatch)
    (h : w.sleep set fuel d = .ok w') : Ledger set.options a w' ∧ w'.NoBatch := by
  obtain ⟨⟨_, _⟩, ha, rfl⟩ := map_eq_ok.1 h
  refine attend_ledger (fun _ => a) (Q := fun w _ => Ledger set.options a w ∧ w.NoBatch)
    ?_ hl hq ha
  intro s w w' b hl hq hr
  cases hr with
  | alarm => exact ⟨hl, hq⟩
  | mail hm => cases hm
  | joined _ _ hj => cases hj
  | ended he => cases he

theorem sleep_noneStarted {d : Duration} (h : w.sleep set fuel d = .ok w') : w.NoneStarted w' := by
  obtain ⟨⟨_, _⟩, ha, rfl⟩ := map_eq_ok.1 h
  exact attend_noneStarted (fun _ => rfl)
    (fun s b w => by simp only [sleeping]; split <;> exact ⟨rfl, rfl⟩) ha

theorem pause_ledger {d : Duration} {failure : Option Failure} (hl : Ledger set.options a w)
    (hq : w.NoBatch) (h : w.pause set fuel d = .ok (w', failure)) :
    Ledger set.options { a with received := a.received ++ failure.toList } w' ∧ w'.NoBatch := by
  refine attend_ledger (fun _ => a)
    (Q := fun w f => Ledger set.options { a with received := a.received ++ f.toList } w ∧ w.NoBatch)
    ?_ hl hq h
  intro s w w' b hl hq hr
  cases hr with
  | alarm => exact ⟨by simpa using hl, hq⟩
  | mail _ hf => exact ⟨hl.receive hf, hq.dials, hq.connected, hq.refusals⟩
  | joined _ _ hj => cases hj
  | ended he => cases he

/-! ## Loops that are waited for -/

theorem drain_ledger {clients : List Client} (hl : Ledger set.options a w) (hq : w.NoBatch)
    (h : w.drain set fuel = .ok (w', clients)) :
    Ledger set.options { a with held := a.held ++ clients } w' ∧ w'.NoBatch ∧ w'.workers = [] := by
  refine attend_ledger (fun cs => { a with held := a.held ++ cs })
    (Q := fun w cs => Ledger set.options { a with held := a.held ++ cs } w ∧ w.NoBatch ∧
      w.workers = []) ?_ (by simpa using hl) hq h
  intro cs w w' b hl hq hr
  cases hr with
  | alarm ha => cases ha
  | mail hm => cases hm
  | joined hk hs =>
    exact ⟨by simpa using hl.join hk hs, hq.dials, hq.connected, hq.refusals⟩
  | ended he => exact ⟨hl, hq, List.isEmpty_iff.1 he⟩

theorem drain_connections {clients : List Client} (h : w.drain set fuel = .ok (w', clients)) :
    w'.network.connections.length = w.network.connections.length :=
  attend_connections (fun _ b _ => by cases b <;> rfl) h

/-- **What is handed over** when the wait for a crew is at its end: its clients by id, and the failure
received, or else one that is still on the channel. -/
theorem joinAll_ok {limit : Option Duration} {clients : List Client} {failure : Option Failure}
    (h : w.joinAll set fuel limit = .ok (w', clients, failure)) :
    ∃ w1 c failures, w.attend set joining fuel { deadline := limit.map (w.now + ·) } = .ok (w1, c) ∧
      clients = Client.sortById c.clients ∧ w' = { w1 with failures } ∧
      (c.first = failure ∧ w1.failures = failures ∧ (failure = none → failures = []) ∨
        ∃ f, c.first = none ∧ failure = some f ∧ w1.failures = f :: failures) := by
  unfold joinAll at h
  split at h
  · cases h
  · next w1 c he =>
    refine ⟨w1, c, w'.failures, he, ?_⟩
    dsimp only at h
    split at h
    · next f rest hnone hf =>
      cases h
      exact ⟨rfl, rfl, .inr ⟨f, hnone, rfl, hf⟩⟩
    · next hne =>
      cases h
      refine ⟨rfl, rfl, .inl ⟨rfl, rfl, fun hnone => ?_⟩⟩
      cases hf : w'.failures with
      | nil => rfl
      | cons f rest => exact (hne f rest hnone hf).elim

theorem joinAll_connections {fuel : Nat} {limit : Option Duration} {clients : List Client}
    {failure : Option Failure} (h : w.joinAll set fuel limit = .ok (w', clients, failure)) :
    w'.network.connections.length = w.network.connections.length := by
  obtain ⟨w1, c, failures, he, rfl, rfl, -⟩ := joinAll_ok h
  have hlen := attend_connections (fun _ b _ => by cases b <;> rfl) he
  exact hlen

/-- The crew is complete when its clients and the first failure are handed over, and no failure
is left behind unless one was sent before. -/
theorem joinAll_ledger {limit : Option Duration} {clients : List Client}
    {failure : Option Failure} (hl : Ledger set.options a w) (hq : w.NoBatch)
    (h : w.joinAll set fuel limit = .ok (w', clients, failure)) :
    Ledger set.options
      { a with held := a.held ++ clients, received := a.received ++ failure.toList } w' ∧
      w'.NoBatch ∧ w'.workers = [] ∧ (failure = none → w'.failures = []) := by
  obtain ⟨w1, c, failures, he, rfl, rfl, hfailure⟩ := joinAll_ok h
  have hend : Ledger set.options
      { a with held := a.held ++ c.clients, received := a.received ++ c.first.toList } w1 ∧
      w1.NoBatch ∧ w1.workers = [] := by
    refine attend_ledger (fun c =>
        { a with held := a.held ++ c.clients, received := a.received ++ c.first.toList })
      (Q := fun w c => Ledger set.options
        { a with held := a.held ++ c.clients, received := a.received ++ c.first.toList } w ∧
        w.NoBatch ∧ w.workers = []) ?_ (by simpa using hl) hq he
    intro c w w' b hl hq hr
    cases hr with
    | alarm => exact ⟨⟨hl.custody, hl.rounds, hl.attempts, hl.joins, hl.closed, hl.isOpen⟩,
        hq.dials, hq.connected, hq.refusals⟩
    | mail hm hf =>
      have hnone : c.first = none := by simpa [joining] using hm
      have hl := hl.receive hf
      simp only [hnone, Option.toList_none, List.append_nil] at hl
      exact ⟨⟨hl.custody, hl.rounds, hl.attempts, hl.joins, hl.closed, hl.isOpen⟩,
        hq.dials, hq.connected, hq.refusals⟩
    | joined hk hs =>
      exact ⟨by simpa using hl.join hk hs, hq.dials, hq.connected, hq.refusals⟩
    | ended he => exact ⟨hl, hq, List.isEmpty_iff.1 he⟩
  obtain ⟨hl, hq, hw⟩ := hend
  have hp : (a.held ++ c.clients).Perm (a.held ++ Client.sortById c.clients) :=
    (Client.sortById_perm _).symm.append_left _
  obtain ⟨rfl, rfl, hnone⟩ | ⟨f, hnone, rfl, hf⟩ := hfailure
  · exact ⟨hl.perm hp, hq, hw, hnone⟩
  · rw [hnone] at hl
    have hl := (hl.perm hp).receive hf
    exact ⟨by simpa using hl, ⟨hq.dials, hq.connected, hq.refusals⟩, hw, fun h => by cases h⟩

/-! ## A batch -/

theorem InternalStep.attempts_length (hs : InternalStep set w w') :
    w'.connected.length + w'.refusals.length + w'.dials.length =
      w.connected.length + w.refusals.length + w.dials.length := by
  cases hs with
  | signal =>
    unfold interrupted
    split <;> rfl
  | @arrived i c t latency hd =>
    obtain ⟨hi, -⟩ := List.getElem?_eq_some_iff.1 hd
    simp only [World.arrived, note, List.length_append, List.length_singleton,
      List.length_eraseIdx, hi, if_true]
    omega
  | @declined i c t e hd =>
    obtain ⟨hi, -⟩ := List.getElem?_eq_some_iff.1 hd
    simp only [World.declined, note, List.length_append, List.length_singleton,
      List.length_eraseIdx, hi, if_true]
    omega
  | _ => rfl

theorem dial_length : (w.dial set w.network.connections.length).network.connections.length =
    w.network.connections.length + 1 := by
  obtain ⟨conn, hnet, -⟩ := Client.connect_new set.options w.now w.network
  exact (congrArg (·.connections.length) hnet).trans List.length_append

theorem dialBatch_ledger (size : Nat) (hl : Ledger set.options a w) :
    let w' := w.dialBatch set w.network.connections.length size
    Ledger set.options a w' ∧
      w'.network.connections.length = w.network.connections.length + size := by
  induction size generalizing w with
  | zero => exact ⟨hl, rfl⟩
  | succ size ih =>
    have ih := ih hl.dial
    rw [dial_length, Nat.add_assoc, Nat.add_comm 1] at ih
    exact ih

theorem dialBatch_frame (set : Setting) (w : World) (first size : Nat) :
    (w.dialBatch set first size).dials.length = w.dials.length + size ∧
      (w.dialBatch set first size).connected = w.connected ∧
      (w.dialBatch set first size).refusals = w.refusals ∧
      (w.dialBatch set first size).workers = w.workers ∧
      (w.dialBatch set first size).failures = w.failures := by
  induction size generalizing first w with
  | zero => exact ⟨rfl, rfl, rfl, rfl, rfl⟩
  | succ size ih =>
    obtain ⟨h1, h2, h3, h4, h5⟩ := ih (w.dial set first) (first + 1)
    refine ⟨h1.trans ?_, h2, h3, h4, h5⟩
    simp only [dial, List.length_append, List.length_singleton]
    omega

theorem dialBatch_sink (set : Setting) (first size : Nat) (w : World) :
    (w.dialBatch set first size).sink = w.sink := by
  induction size generalizing first w with
  | zero => rfl
  | succ size ih => exact ih (first + 1) (w.dial set first)

theorem dialBatch_ids (set : Setting) (w : World) (first size : Nat) :
    (w.dialBatch set first size).dials.map Dial.id =
      w.dials.map Dial.id ++ List.range' first size := by
  induction size generalizing first w with
  | zero => exact (List.append_nil _).symm
  | succ size ih =>
    have hdial : (w.dial set first).dials.map Dial.id = w.dials.map Dial.id ++ [first] := by
      rw [dial, List.map_append]
      exact congrArg (w.dials.map Dial.id ++ [·]) (Client.connect_id ..)
    refine (ih (w.dial set first) (first + 1)).trans ?_
    rw [hdial, List.append_assoc, List.range'_succ]
    rfl

/-- **A batch that has connected.** Every member is handed over, connected or refused, and no
other attempt was made. -/
theorem connectBatch_ledger {size : Nat} {watchful : Bool} {out : BatchOutcome}
    {seen : Option Failure} (hl : Ledger set.options a w) (hq : w.NoBatch)
    (h : w.connectBatch set fuel w.network.connections.length size watchful =
      .ok (w', out, seen)) :
    Ledger set.options { a with
      held := a.held ++ out.connected, received := a.received ++ seen.toList
      refused := a.refused ++ out.refusals } w' ∧ w'.NoBatch ∧
      (∀ c ∈ out.connected, c.isOpen = true) ∧
      out.connected.length + out.refusals.length = size ∧
      w'.network.connections.length = w.network.connections.length + size ∧
      (watchful = false → seen = none ∧ w.NoneStarted w') := by
  obtain ⟨⟨w1, seen1⟩, ha, he⟩ := map_eq_ok.1 h
  cases he
  obtain ⟨hl0, hn0⟩ := dialBatch_ledger size hl
  obtain ⟨hd0, hc0, hr0, hw0, hf0⟩ := dialBatch_frame set w w.network.connections.length size
  let I (seen : Option Failure) (w1 : World) : Prop :=
    Ledger set.options { a with received := a.received ++ seen.toList } w1 ∧
      w1.connected.length + w1.refusals.length + w1.dials.length = size ∧
      w1.network.connections.length = w.network.connections.length + size ∧
      (watchful = false → seen = none)
  have hend : I seen w1 ∧ w1.dials = [] := by
    refine attend_rule (I := I) (Q := fun w1 seen => I seen w1 ∧ w1.dials = []) ?_ ?_ ?_
      ⟨by simpa using hl0, ?_, hn0, fun _ => rfl⟩ ha
    · exact fun s w t h => ⟨ledger_tick h.1 t, h.2⟩
    · exact fun s w w' h hs => ⟨h.1.internalStep hs, hs.attempts_length.trans h.2.1,
        hs.connections_length.trans h.2.2.1, h.2.2.2⟩
    · rintro s w w' b ⟨hl, hn, hlen, hseen⟩ hr
      cases hr with
      | alarm ha => cases ha
      | mail hm hf =>
        obtain ⟨hwatch, hnone⟩ := Bool.and_eq_true_iff.1 hm
        obtain rfl : s = none := by simpa using hnone
        have hl := hl.receive hf
        simp only [Option.toList_none, List.append_nil] at hl
        exact ⟨⟨hl.custody, hl.rounds, hl.attempts, hl.joins, hl.closed, hl.isOpen⟩, hn, hlen,
          fun h => by rw [hwatch] at h; cases h⟩
      | joined _ _ hj => cases hj
      | ended he => exact ⟨⟨hl, hn, hlen, hseen⟩, List.isEmpty_iff.1 he⟩
    · rw [hc0, hr0, hd0, hq.connected, hq.refusals, hq.dials]
      simp
  obtain ⟨⟨hl1, hn1, hlen, hseen⟩, hd1⟩ := hend
  have hp := List.mergeSort_perm w1.connected fun a b => a.id ≤ b.id
  refine ⟨hl1.handOver, ⟨hd1, rfl, rfl⟩, ?_, ?_, hlen, fun hwatch => ⟨hseen hwatch, ?_⟩⟩
  · exact fun c hc => hl1.isOpen c (hp.mem_iff.1 hc)
  · have hsort : (Client.sortById w1.connected).length = w1.connected.length := hp.length_eq
    simp only [hd1, List.length_nil, Nat.add_zero] at hn1
    exact (congrArg (· + w1.refusals.length) hsort).trans hn1
  · have hdial : w.NoneStarted (w.dialBatch set w.network.connections.length size) :=
      fun hw => ⟨hw0.trans hw, hf0⟩
    have hwait : (w.dialBatch set w.network.connections.length size).NoneStarted w1 := by
      refine attend_noneStarted (fun seen => ?_) (fun s b w => ?_) ha
      · simp [connecting, hwatch]
      · simp only [connecting]
        split <;> exact ⟨rfl, rfl⟩
    exact hdial.trans hwait

end World

end EchoLoad
