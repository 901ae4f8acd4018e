import EchoLoad.Proofs.Custody.Hands
/-!
The books of a run. The controller keeps an account of what it has in hand and of what it has
taken from the world; `Ledger` says that account and world agree with all that ever happened: no
client, failure, refusal or sample is missing or counted twice. Main statements: `Ledger.internalStep`
and one lemma for each thing the controller does.
-/

namespace EchoLoad

/-- What a controller has in hand, and what it has taken from the world so far. -/
structure Account where
  held : List Client := []
  /-- Failures of rounds, in the order received. -/
  received : List Failure := []
  /-- Failures of attempts in the batches handed over. -/
  refused : List ClientError := []
  /-- Join samples taken off the sink. -/
  joins : Nat := 0
  /-- Clients closed. -/
  closed : Nat := 0

structure Ledger (o : ClientOptions) (a : Account) (w : World) : Prop where
  custody : Custody o a.held w
  rounds : w.failedRounds = a.received ++ w.failures
  attempts : w.failedAttempts = a.refused ++ w.refusals
  joins : w.events.countP Event.isJoin = a.joins + w.sink.collect.joins.length
  closed : w.events.countP Event.isClosing = a.closed
  isOpen : ∀ c ∈ w.connected, c.isOpen = true

namespace World

variable {set : Setting} {w w' : World} {e : Event}

theorem failedRounds_cons (h : w'.events = e :: w.events) :
    w'.failedRounds = w.failedRounds ++ e.failedRound?.toList := by
  simp only [failedRounds, h, List.reverse_cons, List.filterMap_append, List.filterMap_cons,
    List.filterMap_nil]
  cases e.failedRound? <;> rfl

theorem failedRounds_kept (h : w'.events = e :: w.events) (he : e.failedRound? = none) :
    w'.failedRounds = w.failedRounds := by
  rw [failedRounds_cons h, he]
  exact List.append_nil _

theorem failedAttempts_cons (h : w'.events = e :: w.events) :
    w'.failedAttempts = w.failedAttempts ++ e.failedAttempt?.toList := by
  simp only [failedAttempts, h, List.reverse_cons, List.filterMap_append, List.filterMap_cons,
    List.filterMap_nil]
  cases e.failedAttempt? <;> rfl

theorem failedRounds_congr (h : w'.events = w.events) : w'.failedRounds = w.failedRounds := by
  rw [failedRounds, h, failedRounds]

theorem failedAttempts_congr (h : w'.events = w.events) :
    w'.failedAttempts = w.failedAttempts := by
  rw [failedAttempts, h, failedAttempts]

end World

theorem Sink.collect_record_join (s : Sink) (d : Duration) :
    (s.record (.join d)).collect.joins = s.collect.joins ++ [d] := by
  simp [Sink.record, Sink.collect, Sink.joinOf]

theorem Sink.collect_record_message (s : Sink) (d : Duration) :
    (s.record (.message d)).collect.joins = s.collect.joins := by
  simp [Sink.record, Sink.collect, Sink.joinOf]

namespace Ledger

variable {o : ClientOptions} {a : Account} {set : Setting} {w w' : World}

theorem congr (h : Ledger o a w) (hc : Custody o a.held w') (hevents : w'.events = w.events)
    (hfailures : w'.failures = w.failures) (hrefusals : w'.refusals = w.refusals)
    (hsink : w'.sink.collect.joins = w.sink.collect.joins)
    (hconnected : w'.connected = w.connected) : Ledger o a w' where
  custody := hc
  rounds := by rw [World.failedRounds_congr hevents, h.rounds, hfailures]
  attempts := by rw [World.failedAttempts_congr hevents, h.attempts, hrefusals]
  joins := by rw [hevents, h.joins, hsink]
  closed := by rw [hevents, h.closed]
  isOpen := by rw [hconnected]; exact h.isOpen

theorem note (h : Ledger o a w) (e : Event) (hc : Custody o a.held w')
    (hevents : w'.events = e :: w.events)
    (hfailures : w'.failures = w.failures ++ e.failedRound?.toList)
    (hrefusals : w'.refusals = w.refusals ++ e.failedAttempt?.toList)
    (hsink : w'.sink.collect.joins.length =
      w.sink.collect.joins.length + if e.isJoin = true then 1 else 0)
    (hclosing : e.isClosing = false) (hopen : ∀ c ∈ w'.connected, c.isOpen = true) :
    Ledger o a w' where
  custody := hc
  rounds := by rw [World.failedRounds_cons hevents, h.rounds, hfailures, List.append_assoc]
  attempts := by rw [World.failedAttempts_cons hevents, h.attempts, hrefusals, List.append_assoc]
  joins := by rw [hevents, List.countP_cons, h.joins, hsink, Nat.add_assoc]
  closed := by rw [hevents, List.countP_cons, h.closed, hclosing]; rfl
  isOpen := hopen

/-- **The books are kept by all that happens while the controller waits.** -/
theorem internalStep (h : Ledger set.options a w) (hs : World.InternalStep set w w') :
    Ledger set.options a w' := by
  have hc := hs.custody h.custody
  cases hs with
  | signal =>
    have hw : w.interrupted.events = w.events ∧ w.interrupted.failures = w.failures ∧
        w.interrupted.refusals = w.refusals ∧ w.interrupted.sink = w.sink ∧
        w.interrupted.connected = w.connected := by
      unfold World.interrupted
      split <;> exact ⟨rfl, rfl, rfl, rfl, rfl⟩
    obtain ⟨h1, h2, h3, h4, h5⟩ := hw
    exact h.congr hc h1 h2 h3 (by rw [h4]) h5
  | @arrived i c t latency hd =>
    refine h.note (.resolved c.id none) hc rfl (List.append_nil _).symm (List.append_nil _).symm
      ?_ rfl ?_
    · exact (congrArg List.length (Sink.collect_record_join ..)).trans List.length_append
    · intro x hx
      obtain ⟨conn, -, hl⟩ := h.custody.at_dial hd
      rcases List.mem_append.1 hx with hx | hx
      · exact h.isOpen x hx
      · exact List.mem_singleton.1 hx ▸ hl.isOpen
  | @declined i c t e hd =>
    exact h.note (.resolved c.id (some e)) hc rfl (List.append_nil _).symm rfl rfl rfl h.isOpen
  | @echoed i k t latency hk =>
    exact h.note (.roundEnded k.client.id none) hc rfl (List.append_nil _).symm
      (List.append_nil _).symm (congrArg List.length (Sink.collect_record_message ..)) rfl h.isOpen
  | @broken i k t e hk =>
    exact h.note (.roundEnded k.client.id (some e)) hc rfl rfl (List.append_nil _).symm rfl rfl
      h.isOpen
  | @start i length k source hk =>
    exact h.note (.roundStarted k.client.id) hc rfl (List.append_nil _).symm
      (List.append_nil _).symm rfl rfl h.isOpen
  | retire => exact h.congr hc rfl rfl rfl rfl rfl

/-! ## What the controller does -/

variable {held : List Client} {c : Client}

theorem of_fresh (h : w.Fresh) : Ledger o {} w where
  custody := .of_fresh h
  rounds := by simp [World.failedRounds, World.events, h.journal, h.failures]
  attempts := by simp [World.failedAttempts, World.events, h.journal, h.refusals]
  joins := by simp [World.events, h.journal, h.sink, Sink.collect]
  closed := by simp [World.events, h.journal]
  isOpen := by simp [h.connected]

theorem perm (h : Ledger o a w) (hp : a.held.Perm held) : Ledger o { a with held } w :=
  ⟨h.custody.perm hp, h.rounds, h.attempts, h.joins, h.closed, h.isOpen⟩

theorem dial (h : Ledger set.options a w) :
    Ledger set.options a (w.dial set w.network.connections.length) :=
  h.note (.attempt _) h.custody.dial rfl (List.append_nil _).symm (List.append_nil _).symm rfl rfl
    h.isOpen

theorem spawn {plan : EchoPlan} (h : Ledger o { a with held := c :: held } w)
    (hc : c.isOpen = true) : Ledger o { a with held } (w.spawn set plan c) :=
  ⟨h.custody.spawn hc, h.rounds, h.attempts, h.joins, h.closed, h.isOpen⟩

theorem resetCounters (h : Ledger o a w) :
    Ledger o { a with held := a.held.map Client.resetCounters } w :=
  ⟨h.custody.resetCounters, h.rounds, h.attempts, h.joins, h.closed, h.isOpen⟩

theorem handOver (h : Ledger o a w) :
    Ledger o { a with
      held := a.held ++ w.handOver.2.connected, refused := a.refused ++ w.handOver.2.refusals }
      w.handOver.1 :=
  ⟨h.custody.handOver, h.rounds, h.attempts.trans (List.append_nil _).symm, h.joins, h.closed,
    by simp [World.handOver]⟩

theorem join (h : Ledger o a w) {i : Nat} {k : Worker} (hk : w.workers[i]? = some k)
    (hs : k.stage = .done) :
    Ledger o { a with held := a.held ++ [k.client] } { w with workers := w.workers.eraseIdx i } :=
  ⟨h.custody.join hk hs, h.rounds, h.attempts, h.joins, h.closed, h.isOpen⟩

theorem receive (h : Ledger o a w) {f : Failure} {rest : List Failure}
    (hf : w.failures = f :: rest) :
    Ledger o { a with received := a.received ++ [f] } { w with failures := rest } :=
  ⟨h.custody, by rw [← List.append_cons, ← hf]; exact h.rounds, h.attempts, h.joins, h.closed,
    h.isOpen⟩

theorem discard (h : Ledger o a w) :
    Ledger o { a with received := a.received ++ w.failures } { w with failures := [] } :=
  ⟨h.custody, h.rounds.trans (List.append_nil _).symm, h.attempts, h.joins, h.closed, h.isOpen⟩

theorem close (h : Ledger o { a with held := c :: held } w) :
    Ledger o { a with held, closed := a.closed + if c.isOpen = true then 1 else 0 } (w.close c) := by
  have hc : Custody o held (w.close c) := Custody.close h.custody
  by_cases hopen : c.isOpen = true
  · have hw : w.close c = { w.note (.closed c.id) with network := (c.close w.network).2 } :=
      if_pos hopen
    rw [hw] at hc ⊢
    have hevents : ({ w.note (.closed c.id) with network := (c.close w.network).2 } :
        World).events = .closed c.id :: w.events := rfl
    refine ⟨hc, ?_, ?_, ?_, ?_, h.isOpen⟩
    · exact (World.failedRounds_cons hevents).trans ((List.append_nil _).trans h.rounds)
    · exact (World.failedAttempts_cons hevents).trans ((List.append_nil _).trans h.attempts)
    · exact h.joins
    · rw [hevents, List.countP_cons, h.closed, if_pos hopen]
      rfl
  · have hw : w.close c = w := if_neg hopen
    rw [hw] at hc ⊢
    rw [if_neg hopen]
    exact ⟨hc, h.rounds, h.attempts, h.joins, h.closed, h.isOpen⟩

theorem takeMessages (h : Ledger o a w) : Ledger o a w.takeMessages.2 :=
  h.congr h.custody rfl rfl rfl (List.append_nil _) rfl

theorem takeJoins (h : Ledger o a w) :
    Ledger o { a with joins := a.joins + w.takeJoins.1.length } w.takeJoins.2 :=
  ⟨h.custody, h.rounds, h.attempts, h.joins, h.closed, h.isOpen⟩

end Ledger

end EchoLoad
