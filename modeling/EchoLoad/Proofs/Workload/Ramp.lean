import EchoLoad.Proofs.Settled
import EchoLoad.Workload.Ramp
/-!
A ramp in the books, batch by batch and through its end. `Next` and `Cycle` list all that can come of
a step and of a cycle. Main statements: `cycle_ledger` for one batch and `run_ledger` for a whole
ramp.
-/

namespace EchoLoad

/-- The end of a ramp tells what has happened. -/
def RampEnd.Tells (w : World) : RampEnd → Prop
  | .failed .connect e => w.failedAttempts.head? = some e
  | .failed .echo e => w.failedRounds.head?.map (·.error) = some e
  | _ => w.failedAttempts = [] ∧ w.failedRounds = []

namespace Ramp

variable {set : Setting} {fuel : Nat} {s : RampSettings} {r r' : Ramp} {w w' : World} {a : Account}

/-- What the controller has taken from the world when a ramp has come to this end. -/
def Tells (a : Account) : RampEnd → Prop
  | .failed .connect e => a.refused.head? = some e
  | .failed .echo e => a.received.head?.map (·.error) = some e
  | _ => a.received = [] ∧ a.refused = []

theorem Tells.clean {ending : RampEnd} (h : Tells a ending)
    (hne : ∀ p e, ending = .failed p e → False) : a.received = [] ∧ a.refused = [] := by
  cases ending with
  | failed p e => exact (hne p e rfl).elim
  | capped | interrupted => exact h

/-- The books of a ramp between two batches, or after the last. -/
structure Books (o : ClientOptions) (a : Account) (r : Ramp) (w : World) : Prop where
  ledger : Ledger o a w
  noBatch : w.NoBatch
  held : a.held = r.stragglers
  joins : a.joins = 0
  closed : a.closed = 0

theorem admitBatch_ledger {clients left : List Client}
    (hl : Ledger set.options { a with held := clients ++ a.held } w) (hq : w.NoBatch)
    (hopen : ∀ c ∈ clients, c.isOpen = true)
    (h : admitBatch set fuel s clients w = .ok (w', left)) :
    Ledger set.options { a with held := a.held ++ left } w' ∧ w'.NoBatch := by
  obtain ⟨hl, hq⟩ := World.spawn_ledger set (admissionPlan s) hl hq hopen
  refine World.attend_ledger (fun left => { a with held := a.held ++ left })
    (Q := fun w left => Ledger set.options { a with held := a.held ++ left } w ∧ w.NoBatch) ?_
    (by simpa using hl) hq h
  intro left w w' b hl hq hr
  cases hr with
  | alarm ha => cases ha
  | mail hm => cases hm
  | @joined i k hk hs =>
    have hj := hl.join hk hs
    simp only [admitting]
    by_cases hc : k.client.isOpen = true
    · have hp : (a.held ++ left ++ [k.client]).Perm (k.client :: (a.held ++ left)) :=
        List.perm_append_comm
      rw [if_pos hc]
      exact ⟨Ledger.spawn (a := { a with held := a.held ++ left }) (hj.perm hp) hc,
        hq.dials, hq.connected, hq.refusals⟩
    · rw [if_neg hc]
      exact ⟨by simpa using hj, hq.dials, hq.connected, hq.refusals⟩
  | ended => exact ⟨hl, hq⟩

/-- Between two batches nothing has failed unnoticed, and the population is that of the network. -/
structure Growing (o : ClientOptions) (r : Ramp) (w : World) : Prop where
  books : Books o { held := r.stragglers } r w
  population : r.population = w.network.connections.length

theorem Growing.start {o : ClientOptions} (hw : w.Fresh) : Growing o {} w.activate :=
  ⟨⟨Ledger.of_fresh hw.activate, hw.activate.noBatch, rfl, rfl, rfl⟩,
    (congrArg List.length hw.connections).symm⟩

def batchAt (s : RampSettings) (population : Nat) : Nat :=
  match s.maxClients with
  | none => s.batchSize
  | some cap => min s.batchSize (cap - population)

inductive Next (s : RampSettings) (r : Ramp) (w : World) : World → RampEnd ⊕ Nat → Prop
  | failed {f : Failure} {rest : List Failure} : w.failures = f :: rest →
      Next s r w { w with failures := rest } (.inl (.failed .echo f.error))
  | interrupted : w.failures = [] → w.active = false ∨ w.stopped = true →
      Next s r w w (.inl .interrupted)
  | capped {cap : Nat} : w.failures = [] → w.active = true → w.stopped = false →
      s.maxClients = some cap → cap ≤ r.population → Next s r w w (.inl .capped)
  | batch : w.failures = [] → w.active = true → w.stopped = false →
      (∀ cap, s.maxClients = some cap → r.population < cap) →
      Next s r w w (.inr (batchAt s r.population))

theorem next_ok {x : RampEnd ⊕ Nat} (h : r.next s w = (w', x)) : Next s r w w' x := by
  unfold next at h
  split at h
  · next f rest hf =>
    cases h
    exact .failed hf
  · next hf =>
    split at h
    · next hstop =>
      cases h
      exact .interrupted hf (by simpa using hstop)
    · next hgo =>
      obtain ⟨hactive, hstopped⟩ : w.active = true ∧ w.stopped = false := by simpa using hgo
      cases hmax : s.maxClients with
      | none =>
        have hbatch : Next s r w w (.inr (batchAt s r.population)) :=
          .batch hf hactive hstopped (by simp [hmax])
        rw [hmax] at h
        cases h
        simpa only [batchAt, hmax] using hbatch
      | some cap =>
        rw [hmax] at h
        dsimp only at h
        split at h
        · next hle =>
          cases h
          exact .capped hf hactive hstopped hmax hle
        · next hlt =>
          have hbatch : Next s r w w (.inr (batchAt s r.population)) :=
            .batch hf hactive hstopped (by simpa [hmax] using hlt)
          cases h
          simpa only [batchAt, hmax] using hbatch

theorem next_ends {ending : RampEnd} (hg : Growing set.options r w)
    (h : r.next s w = (w', .inl ending)) :
    ∃ a, Books set.options a r w' ∧ Tells a ending := by
  obtain ⟨⟨hl, hq, -, -, -⟩, -⟩ := hg
  cases next_ok h with
  | failed hf =>
    exact ⟨_, ⟨hl.receive hf, ⟨hq.dials, hq.connected, hq.refusals⟩, rfl, rfl, rfl⟩, rfl⟩
  | interrupted | capped => exact ⟨_, ⟨hl, hq, rfl, rfl, rfl⟩, rfl, rfl⟩

theorem next_goes_on {size : Nat} (h : r.next s w = (w', .inr size)) : w' = w := by
  cases next_ok h
  rfl

theorem admitBatch_connections {clients left : List Client}
    (h : admitBatch set fuel s clients w = .ok (w', left)) :
    w'.network.connections.length = w.network.connections.length := by
  have hspawn : ∀ w : World, (clients.foldl (World.spawn set (admissionPlan s)) w).network =
      w.network := by
    clear h
    induction clients with
    | nil => exact fun _ => rfl
    | cons c clients ih => exact fun w => ih (w.spawn set (admissionPlan s) c)
  refine (World.attend_connections (fun left b w => ?_) h).trans (by rw [hspawn])
  simp only [admitting]
  split
  · split <;> rfl
  · rfl
  · rfl

inductive Cycle (set : Setting) (fuel : Nat) (s : RampSettings) (r : Ramp) (w : World) :
    World → Ramp → Option RampEnd → Prop
  | ended {w' : World} {ending : RampEnd} :
      r.next s w = (w', .inl ending) → Cycle set fuel s r w w' r (some ending)
  /-- A failure was received while the batch connected. -/
  | noticed {size : Nat} {w' : World} {out : BatchOutcome} {f : Failure} :
      r.next s w = (w, .inr size) →
      w.connectBatch set fuel r.population size true = .ok (w', out, some f) →
      Cycle set fuel s r w w' ⟨r.population, r.batches + 1, r.stragglers ++ out.connected⟩
        (some (.failed .echo f.error))
  | refused {size : Nat} {w' : World} {out : BatchOutcome} {e : ClientError}
      {rest : List ClientError} : r.next s w = (w, .inr size) →
      w.connectBatch set fuel r.population size true = .ok (w', out, none) →
      out.refusals = e :: rest →
      Cycle set fuel s r w w' ⟨r.population + out.connected.length, r.batches + 1,
        r.stragglers ++ out.connected⟩ (some (.failed .connect e))
  | admitted {size : Nat} {w1 w' : World} {out : BatchOutcome} {left : List Client} :
      r.next s w = (w, .inr size) →
      w.connectBatch set fuel r.population size true = .ok (w1, out, none) → out.refusals = [] →
      admitBatch set fuel s out.connected w1 = .ok (w', left) →
      Cycle set fuel s r w w' ⟨r.population + out.connected.length, r.batches + 1,
        r.stragglers ++ left⟩ none
  | paused {size : Nat} {w1 w2 w' : World} {out : BatchOutcome} {left : List Client}
      {failure : Option Failure} : r.next s w = (w, .inr size) →
      w.connectBatch set fuel r.population size true = .ok (w1, out, none) → out.refusals = [] →
      admitBatch set fuel s out.connected w1 = .ok (w2, left) →
      w2.pause set fuel s.batchPause = .ok (w', failure) →
      Cycle set fuel s r w w' ⟨r.population + out.connected.length, r.batches + 1,
        r.stragglers ++ left⟩ (failure.map fun f => .failed .echo f.error)

theorem cycle_ok {ending : Option RampEnd} (h : cycle set fuel s r w = .ok (w', r', ending)) :
    Cycle set fuel s r w w' r' ending := by
  unfold cycle at h
  split at h
  · next w1 e he =>
    cases h
    exact .ended he
  · next w1 size he =>
    obtain rfl := next_goes_on he
    obtain ⟨⟨w2, out, seen⟩, hc, h⟩ := bind_eq_ok.1 h
    dsimp only at h
    cases seen with
    | some f =>
      cases h
      exact .noticed he hc
    | none =>
      dsimp only at h
      split at h
      · next e rest hr =>
        cases h
        exact .refused he hc hr
      · next hr =>
        obtain ⟨⟨w3, left⟩, ha, h⟩ := bind_eq_ok.1 h
        dsimp only at h
        split at h
        · cases h
          exact .admitted he hc hr ha
        · obtain ⟨⟨w4, failure⟩, hp, h⟩ := bind_eq_ok.1 h
          cases h
          exact .paused he hc hr ha hp

theorem admitted_ledger {size : Nat} {w1 : World} {out : BatchOutcome} {left : List Client}
    (hg : Growing set.options r w)
    (hc : w.connectBatch set fuel r.population size true = .ok (w1, out, none))
    (hr : out.refusals = []) (ha : admitBatch set fuel s out.connected w1 = .ok (w', left)) :
    Growing set.options
      ⟨r.population + out.connected.length, r.batches + 1, r.stragglers ++ left⟩ w' := by
  rw [hg.population] at hc
  obtain ⟨hl, hq, hopen, hsize, hlen, -⟩ :=
    World.connectBatch_ledger hg.books.ledger hg.books.noBatch hc
  rw [hr] at hl hsize
  obtain ⟨hl', hq'⟩ := admitBatch_ledger (a := { held := r.stragglers })
    (hl.perm List.perm_append_comm) hq hopen ha
  have hpop : r.population + out.connected.length = w'.network.connections.length := by
    rw [admitBatch_connections ha, hlen, hg.population, ← hsize]
    rfl
  exact ⟨⟨hl', hq', rfl, rfl, rfl⟩, hpop⟩

/-- **One batch.** Either the ramp goes on as before, or its end says what was taken. -/
theorem cycle_ledger {ending : Option RampEnd} (hg : Growing set.options r w)
    (h : cycle set fuel s r w = .ok (w', r', ending)) :
    (ending = none → Growing set.options r' w') ∧
      ∀ e, ending = some e → ∃ a, Books set.options a r' w' ∧ Tells a e := by
  have hbatch : ∀ {size : Nat} {out : BatchOutcome} {seen : Option Failure},
      w.connectBatch set fuel r.population size true = .ok (w', out, seen) →
      Ledger set.options
        { held := r.stragglers ++ out.connected, received := seen.toList, refused := out.refusals }
        w' ∧ w'.NoBatch := by
    intro size out seen hc
    rw [hg.population] at hc
    obtain ⟨hl, hq, -⟩ := World.connectBatch_ledger hg.books.ledger hg.books.noBatch hc
    exact ⟨hl, hq⟩
  cases cycle_ok h with
  | ended hn => exact ⟨nofun, fun e he => by cases he; exact next_ends hg hn⟩
  | noticed _ hc =>
    obtain ⟨hl, hq⟩ := hbatch hc
    refine ⟨nofun, fun e he => ?_⟩
    cases he
    exact ⟨_, ⟨hl, hq, rfl, rfl, rfl⟩, rfl⟩
  | refused _ hc hr =>
    obtain ⟨hl, hq⟩ := hbatch hc
    refine ⟨nofun, fun e he => ?_⟩
    cases he
    exact ⟨_, ⟨hl, hq, rfl, rfl, rfl⟩, congrArg List.head? hr⟩
  | admitted _ hc hr ha => exact ⟨fun _ => admitted_ledger hg hc hr ha, nofun⟩
  | @paused _ _ _ _ _ _ failure _ hc hr ha hp =>
    obtain ⟨hbooks, hpop⟩ := admitted_ledger hg hc hr ha
    obtain ⟨hl, hq⟩ := World.pause_ledger hbooks.ledger hbooks.noBatch hp
    cases failure with
    | none =>
      have hlen := World.attend_connections
        (fun s b w => by simp only [World.pausing]; split <;> rfl) hp
      exact ⟨fun _ => ⟨⟨hl, hq, rfl, rfl, rfl⟩, hpop.trans hlen.symm⟩, nofun⟩
    | some f =>
      refine ⟨nofun, fun e he => ?_⟩
      cases he
      exact ⟨_, ⟨hl, hq, rfl, rfl, rfl⟩, rfl⟩

theorem grow_ledger {batches : Nat} {ending : RampEnd} (hg : Growing set.options r w)
    (h : grow set fuel s batches r w = .ok (w', r', ending)) :
    ∃ a, Books set.options a r' w' ∧ Tells a ending := by
  induction batches generalizing r w with
  | zero => cases h
  | succ batches ih =>
    unfold grow at h
    split at h
    · cases h
    · next w1 r1 ending1 hc =>
      cases h
      exact (cycle_ledger hg hc).2 ending rfl
    · next w1 r1 hc => exact ih ((cycle_ledger hg hc).1 rfl) h

/-- When all loops have ended the controller has every client in hand, and the end of the ramp
is known. -/
theorem settle_ledger {ending ending' : RampEnd} {clients : List Client}
    (hb : Books set.options a r w) (ht : Tells a ending)
    (h : settle set fuel ending w = .ok (w', clients, ending')) :
    ∃ a : Account, Ledger set.options { a with held := r.stragglers ++ clients } w' ∧ a.joins = 0 ∧
      a.closed = 0 ∧ w'.NoBatch ∧ w'.workers = [] ∧ ending'.Tells w' := by
  obtain ⟨⟨w1, clients1⟩, hd, he⟩ := bind_eq_ok.1 h
  have hcancel : Ledger set.options a w.cancel :=
    hb.ledger.congr hb.ledger.custody rfl rfl rfl rfl rfl
  obtain ⟨hl, hq, hw⟩ := World.drain_ledger hcancel
    ⟨hb.noBatch.dials, hb.noBatch.connected, hb.noBatch.refusals⟩ hd
  rw [hb.held] at hl
  have hattempts : w1.failedAttempts = a.refused := (hq.failedAttempts_eq hl :)
  have hrounds : w1.failedRounds = a.received ++ w1.failures := hl.rounds
  have hq' : ∀ failures, ({ w1 with failures } : World).NoBatch :=
    fun _ => ⟨hq.dials, hq.connected, hq.refusals⟩
  have hdiscard : Ledger set.options { a with
      held := r.stragglers ++ clients1, received := a.received ++ w1.failures }
      { w1 with failures := [] } := hl.discard
  dsimp only at he
  split at he
  · next p e =>
    cases he
    refine ⟨{ a with received := a.received ++ w1.failures }, hdiscard, hb.joins, hb.closed, hq' _,
      hw, ?_⟩
    cases p with
    | connect => exact (congrArg List.head? hattempts).trans ht
    | echo =>
      obtain ⟨f, hf, he⟩ := Option.map_eq_some_iff.1 ht
      refine Option.map_eq_some_iff.2 ⟨f, ?_, he⟩
      exact (congrArg List.head? hrounds).trans (by rw [List.head?_append, hf]; rfl)
  · next f rest hne hf =>
    cases he
    refine ⟨{ a with received := a.received ++ [f] }, hl.receive hf, hb.joins, hb.closed, hq' _, hw,
      ?_⟩
    rw [(ht.clean hne).1, hf] at hrounds
    exact congrArg (fun l : List Failure => l.head?.map (·.error)) hrounds
  · next hne hf =>
    cases he
    refine ⟨{ a with received := a.received ++ w1.failures }, hdiscard, hb.joins, hb.closed, hq' _,
      hw, ?_⟩
    obtain ⟨hreceived, hrefused⟩ := ht.clean hne
    rw [hreceived, hf] at hrounds
    cases ending' with
    | failed p e => exact (hne p e rfl).elim
    | capped | interrupted => exact ⟨hattempts.trans hrefused, hrounds⟩

/-- **All that a ramp has done** if it comes to a report. -/
theorem run_ok {output : Output} {session session' : Session} {report : RampReport}
    (h : run set fuel s output session = .ok (session', .ok report)) :
    ∃ w1 r ending1 w2 clients ending w3 closed,
      grow set fuel s fuel {} session.world.activate = .ok (w1, r, ending1) ∧
      settle set fuel ending1 w1 = .ok (w2, clients, ending) ∧
      w2.closeAll set fuel s.batchSize 0 (r.stragglers ++ clients) = .ok (w3, closed) ∧
      session'.world = w3.takeJoins.2.takeMessages.2 ∧
      report =
        { ending, population := r.population, batches := r.batches, closed
          joinSamples := w3.takeJoins.1.length
          messageSamples := w3.takeJoins.2.takeMessages.1.length } := by
  obtain ⟨⟨w1, r, ending1⟩, hg, h⟩ := bind_eq_ok.1 h
  obtain ⟨⟨w2, clients, ending⟩, hs, h⟩ := bind_eq_ok.1 h
  obtain ⟨⟨w3, closed⟩, hc, h⟩ := bind_eq_ok.1 h
  refine ⟨w1, r, ending1, w2, clients, ending, w3, closed, hg, hs, hc, ?_⟩
  dsimp only at h
  split at h
  · cases h
  · next session1 hjoins =>
    split at h
    · cases h
    · next session2 hmessages =>
      cases h
      exact ⟨(Session.writeSeries_world hmessages).trans (Session.writeSeries_world hjoins), rfl⟩

/-- **A whole ramp.** At its end no client is in anyone's hands, its end tells what has happened,
and its report counts the clients closed and those that connected. -/
theorem run_ledger {output : Output} {session session' : Session}
    {result : Except RunError RampReport} (hw : session.world.Fresh)
    (h : run set fuel s output session = .ok (session', result)) :
    ∃ a ending, Settled set.options a session'.world ∧ RampEnd.Tells session'.world ending ∧
      ∀ r, result = .ok r → r.ending = ending ∧
        r.closed = session'.world.events.countP Event.isClosing ∧
        r.joinSamples = session'.world.events.countP Event.isJoin := by
  obtain ⟨⟨w1, r1, ending1⟩, hg, h⟩ := bind_eq_ok.1 h
  obtain ⟨⟨w2, clients, ending⟩, hs, h⟩ := bind_eq_ok.1 h
  obtain ⟨⟨w3, closed⟩, hc, h⟩ := bind_eq_ok.1 h
  obtain ⟨a1, hb, ht⟩ := grow_ledger (.start hw) hg
  obtain ⟨a, hl2, hjoins, hclosed, hq2, hw2, ht⟩ := settle_ledger hb ht hs
  obtain ⟨hl3, hq3, hidle⟩ := World.closeAll_ledger (a := a) hl2 hq2 hc
  obtain ⟨hw3, hf3⟩ := hidle hw2
  have hrounds : w3.failedRounds = w2.failedRounds := by rw [hl3.rounds, hl2.rounds, hf3]
  have hattempts : w3.failedAttempts = w2.failedAttempts :=
    (hq3.failedAttempts_eq hl3).trans (hq2.failedAttempts_eq hl2).symm
  have htells : ending.Tells w3 := by
    unfold RampEnd.Tells at ht ⊢
    rwa [hrounds, hattempts]
  have hjoined : w3.takeJoins.1.length = w3.events.countP Event.isJoin := by
    rw [hl3.joins, hjoins, Nat.zero_add]
    rfl
  have hclosings : closed = w3.events.countP Event.isClosing := by
    rw [hl3.closed, hclosed, Nat.zero_add]
  have hsettled : Settled set.options
      { a with held := [], closed := a.closed + closed, joins := a.joins + w3.takeJoins.1.length }
      w3.takeJoins.2.takeMessages.2 :=
    ⟨hl3.takeJoins.takeMessages, rfl, ⟨hq3.dials, hq3.connected, hq3.refusals⟩, hw3⟩
  dsimp only at h
  split at h
  · cases h
    exact ⟨_, ending, hsettled, htells, nofun⟩
  · next session1 he1 =>
    have hw1 : session1.world = _ := Session.writeSeries_world he1
    split at h
    · cases h
      rw [hw1]
      exact ⟨_, ending, hsettled, htells, nofun⟩
    · next session2 he2 =>
      have hw2 : session2.world = _ := (Session.writeSeries_world he2).trans hw1
      cases h
      rw [hw2]
      refine ⟨_, ending, hsettled, htells, fun r h => ?_⟩
      cases h
      exact ⟨rfl, hclosings, hjoined⟩

end Ramp

end EchoLoad
