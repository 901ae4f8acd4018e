import EchoLoad.Proofs.Payload
import EchoLoad.Proofs.Pool
import Mathlib.Algebra.BigOperators.Ring.List
import Mathlib.Algebra.Group.Action.Defs
import Mathlib.Algebra.Order.BigOperators.Group.List
import Mathlib.Algebra.Order.Ring.Nat
/-!
The tally of a crew. Its rounds are counted in three places: by the clients, by the samples on the
sink, and by the journal. However its loops interleave, fail or are cut off, the three agree as
soon as no round is under way. Main statements: `Tally.Running.internalStep`, `Tally.totals` and
`World.joinAll_tally`.
-/

namespace EchoLoad

theorem Sink.messages_record_message (s : Sink) (d : Duration) :
    (s.record (.message d)).collect.messages = s.collect.messages ++ [d] := by
  simp [Sink.record, Sink.collect, Sink.messageOf]

/-! ## One loop -/

theorem Client.exchange_counts (o : ClientOptions) (c : Client) (now : Duration) (payload : Bytes)
    (net : Network) : (c.exchange o now payload net).client.rounds = c.rounds ∧
      (c.exchange o now payload net).client.bytesSent = c.bytesSent := by
  unfold Client.exchange
  split
  · exact ⟨rfl, rfl⟩
  · split <;> exact ⟨rfl, rfl⟩

theorem Client.echoRound_counts (o : ClientOptions) (c : Client) (now : Duration) (payload : Bytes)
    (net : Network) :
    match (c.echoRound o now payload net).ending with
    | some (_, .ok _) =>
      (c.echoRound o now payload net).client.rounds = c.rounds + 1 ∧
        (c.echoRound o now payload net).client.bytesSent = c.bytesSent + Frame.size payload.length
    | _ =>
      (c.echoRound o now payload net).client.rounds = c.rounds ∧
        (c.echoRound o now payload net).client.bytesSent = c.bytesSent := by
  obtain ⟨hrounds, hbytes⟩ := exchange_counts o { c with state := .active } now payload net
  by_cases hopen : c.isOpen = true
  · simp only [echoRound, hopen, if_true]
    rcases hcall : ({ c with state := .active } : Client).exchange o now payload net with
      ⟨c', net', ending⟩
    rw [hcall] at hrounds hbytes
    rcases ending with _ | ⟨t, e | latency⟩
    · exact ⟨hrounds, hbytes⟩
    · exact ⟨hrounds, hbytes⟩
    · exact ⟨congrArg (· + 1) hrounds, congrArg (· + _) hbytes⟩
  · simp only [echoRound, hopen]
    exact ⟨rfl, rfl⟩

namespace Worker

theorem hasBudget_iff {k : Worker} :
    k.hasBudget = true ↔ ∀ n, k.plan.rounds = some n → k.completed < n := by
  unfold hasBudget
  cases h : k.plan.rounds <;> simp

/-- Rounds begun: those completed, and one under way. -/
def begun (k : Worker) : Nat :=
  match k.stage with
  | .busy _ => k.completed + 1
  | _ => k.completed

/-- Rounds on the counters of the client: those completed, and one under way that will be echoed. -/
def counted (k : Worker) : Nat :=
  match k.stage with
  | .busy (some (_, .ok _)) => k.completed + 1
  | _ => k.completed

/-- The counters of a client agree with those of its loop, which keeps to its budget. -/
structure Counts (plan : EchoPlan) (size : Nat) (k : Worker) : Prop where
  follows : k.plan = plan
  rounds : k.client.rounds = k.counted
  bytes : k.client.bytesSent = k.client.rounds * Frame.size size
  budget : ∀ n, plan.rounds = some n → k.begun ≤ n

namespace Counts

variable {plan : EchoPlan} {size : Nat} {k : Worker}

theorem advance (h : k.Counts plan size) {t latency : Duration}
    (hs : k.stage = .busy (some (t, .ok latency))) : k.advance.Counts plan size := by
  have hcounted : k.counted = k.completed + 1 := by simp only [counted, hs]
  have hbegun : k.begun = k.completed + 1 := by simp only [begun, hs]
  refine ⟨h.follows, ?_, h.bytes, fun n hn => ?_⟩
  · exact h.rounds.trans hcounted
  · have := h.budget n hn
    rwa [hbegun] at this

theorem halt (h : k.Counts plan size) (hcounted : k.counted = k.completed) :
    ({ k with stage := .done } : Worker).Counts plan size := by
  refine ⟨h.follows, h.rounds.trans hcounted, h.bytes, fun n hn => ?_⟩
  have hle : k.completed ≤ k.begun := by
    unfold begun
    split
    · exact Nat.le_succ _
    · exact Nat.le_refl _
  exact Nat.le_trans hle (h.budget n hn)

theorem start (h : k.Counts plan size) (hs : k.stage = .ready) (hb : k.hasBudget = true)
    {payload : Bytes} (hlength : payload.length = size) (o : ClientOptions) (now : Duration)
    (net : Network) (source : Source) :
    ({ k with
      client := (k.client.echoRound o now payload net).client
      source, stage := .busy (k.client.echoRound o now payload net).ending } : Worker).Counts
        plan size := by
  have hrounds : k.client.rounds = k.completed := by
    rw [h.rounds]
    simp only [counted, hs]
  have hround := k.client.echoRound_counts o now payload net
  have hbudget : ∀ n, plan.rounds = some n → k.completed + 1 ≤ n := h.follows ▸ hasBudget_iff.1 hb
  rcases he : (k.client.echoRound o now payload net).ending with _ | ⟨t, e | latency⟩ <;>
    rw [he] at hround <;> obtain ⟨h1, h2⟩ := hround
  · exact ⟨h.follows, h1.trans hrounds, by rw [h2, h1, h.bytes], hbudget⟩
  · exact ⟨h.follows, h1.trans hrounds, by rw [h2, h1, h.bytes], hbudget⟩
  · refine ⟨h.follows, h1.trans (congrArg (· + 1) hrounds), ?_, hbudget⟩
    rw [h2, h1, h.bytes, hlength, Nat.succ_mul]

end Counts

end Worker

/-! ## All loops -/

/-- Nothing has cut the crew off: since `base` no round failed and no interrupt arrived. A bare
cancellation leaves no other trace, so none may be to come. -/
structure World.Undisturbed (base : World) (es : List Event) (w : World) : Prop where
  clean : ∀ e ∈ es, e.failedRound? = none
  stopped : w.stopped = false
  signals : ∀ x ∈ base.signals, x.2 ≠ .cancel

/-- An interrupt disturbs a crew: all but a bare cancellation are latched. -/
theorem World.Undisturbed.not_interrupted {base w : World} {es : List Event}
    (h : base.Undisturbed es w) {t : Duration} {s : Signal} {rest : List (Duration × Signal)}
    (hs : (t, s) :: rest <:+ base.signals) {stopped : Bool}
    (hstopped : w.stopped = (stopped || s = .latch || s = .interrupt)) : False := by
  have hcancel : s ≠ .cancel := h.signals (t, s) (hs.subset List.mem_cons_self)
  have hlatched := hstopped.symm.trans h.stopped
  cases s with
  | cancel => exact hcancel rfl
  | latch | interrupt => simp at hlatched

/-- A crew of `pool` clients, of which those in `back` have come back, and what has happened since
the world was `base`. -/
structure Tally (plan : EchoPlan) (size pool : Nat) (base : World) (back : List Client)
    (es : List Event) (w : World) : Prop where
  events : w.events = es ++ base.events
  signals : w.signals <:+ base.signals
  workers : ∀ k ∈ w.workers, k.Counts plan size
  clients : ∀ c ∈ back, c.bytesSent = c.rounds * Frame.size size ∧
    ∀ n, plan.rounds = some n → c.rounds ≤ n
  pool : w.workers.length + back.length = pool
  echoes : es.countP Event.isEcho =
    (w.workers.map Worker.completed).sum + (back.map Client.rounds).sum
  samples : w.sink.collect.messages.length = es.countP Event.isEcho
  /-- Left alone, every loop that has ended did all its rounds. -/
  intact : ∀ n, plan.rounds = some n → base.Undisturbed es w →
    (∀ k ∈ w.workers, k.stage = .done → k.completed = n) ∧ ∀ c ∈ back, c.rounds = n

/-- The tally while the crew is waited for: left alone, its loops may go on. -/
structure Tally.Running (plan : EchoPlan) (size pool : Nat) (base : World) (back : List Client)
    (es : List Event) (w : World) : Prop extends Tally plan size pool base back es w where
  flag : ∀ n, plan.rounds = some n → base.Undisturbed es w → w.active = true ∧ w.failures = []

namespace Tally.Running

variable {plan : EchoPlan} {size pool : Nat} {base w w' : World} {back : List Client}
  {es : List Event} {i : Nat} {k k' : Worker}

theorem start (set : Setting) (plan : EchoPlan) (size : Nat) (clients : List Client)
    (hevents : w.events = base.events) (hsignals : w.signals = base.signals)
    (hworkers : w.workers = []) (hfailures : w.failures = [])
    (hsink : w.sink.collect.messages = []) (hactive : w.active = !w.stopped) :
    Running plan size clients.length base [] []
      ((clients.map Client.resetCounters).foldl (World.spawn set plan) w) := by
  rw [World.spawnAll_eq, hworkers, List.nil_append]
  refine ⟨⟨hevents, hsignals ▸ List.suffix_refl _, ?_, by simp, by simp, ?_,
    congrArg List.length hsink, ?_⟩, ?_⟩
  · intro k hk
    obtain ⟨c, hc, rfl⟩ := List.mem_map.1 hk
    obtain ⟨c, -, rfl⟩ := List.mem_map.1 hc
    exact ⟨rfl, rfl, (Nat.zero_mul _).symm, fun n _ => Nat.zero_le n⟩
  · have hzero : ∀ x ∈ ((clients.map Client.resetCounters).map
        (w.newLoop set plan)).map Worker.completed, x = 0 := by
      intro x hx
      simp only [List.map_map, List.mem_map] at hx
      obtain ⟨c, -, rfl⟩ := hx
      rfl
    rw [List.sum_eq_zero hzero]
    rfl
  · intro n _ _
    refine ⟨fun k hk hs => ?_, by simp⟩
    obtain ⟨c, -, rfl⟩ := List.mem_map.1 hk
    cases hs
  · intro n _ hu
    have hstopped : w.stopped = false := hu.stopped
    exact ⟨by rw [hactive, hstopped]; rfl, hfailures⟩

theorem set_worker (h : Running plan size pool base back es w) (new : List Event)
    (hk : w.workers[i]? = some k) (hk' : k'.Counts plan size)
    (hcompleted : k'.completed = k.completed + new.countP Event.isEcho)
    (hworkers : w'.workers = w.workers.set i k') (hevents : w'.events = new ++ w.events)
    (hsignals : w'.signals = w.signals) (hactive : w'.active = w.active)
    (hstopped : w'.stopped = w.stopped)
    (hsink : w'.sink.collect.messages.length =
      w.sink.collect.messages.length + new.countP Event.isEcho)
    (hintact : (∀ e ∈ new, e.failedRound? = none) → w'.failures = w.failures ∧
      ∀ n, plan.rounds = some n → w.active = true → k'.stage = .done → k'.completed = n) :
    Running plan size pool base back (new ++ es) w' := by
  have hbefore : base.Undisturbed (new ++ es) w' →
      base.Undisturbed es w ∧ ∀ e ∈ new, e.failedRound? = none := fun hu =>
    ⟨⟨fun e he => hu.clean e (List.mem_append_right _ he), hstopped ▸ hu.stopped, hu.signals⟩,
      fun e he => hu.clean e (List.mem_append_left _ he)⟩
  refine ⟨⟨?_, hsignals ▸ h.signals, ?_, h.clients, ?_, ?_, ?_, ?_⟩, ?_⟩
  · rw [hevents, h.events, List.append_assoc]
  · rw [hworkers]
    exact forall_mem_set h.workers hk'
  · rw [hworkers, List.length_set, h.pool]
  · rw [List.countP_append, h.echoes, hworkers, sum_map_set hk, sum_map_eraseIdx hk, hcompleted]
    omega
  · rw [hsink, h.samples, List.countP_append, Nat.add_comm]
  · intro n hn hu
    obtain ⟨hu, hnew⟩ := hbefore hu
    obtain ⟨hw, hc⟩ := h.intact n hn hu
    refine ⟨?_, hc⟩
    rw [hworkers]
    exact forall_mem_set hw ((hintact hnew).2 n hn (h.flag n hn hu).1)
  · intro n hn hu
    obtain ⟨hu, hnew⟩ := hbefore hu
    obtain ⟨ha, hf⟩ := h.flag n hn hu
    exact ⟨hactive.trans ha, (hintact hnew).1.trans hf⟩

theorem interrupted (h : Running plan size pool base back es w) {t : Duration} {s : Signal}
    {rest : List (Duration × Signal)} (hs : w.signals = (t, s) :: rest) :
    Running plan size pool base back es w.interrupted := by
  have hsuffix : (t, s) :: rest <:+ base.signals := hs ▸ h.signals
  rw [World.interrupted_eq hs]
  exact ⟨⟨h.events, (List.suffix_cons _ _).trans hsuffix, h.workers, h.clients, h.pool, h.echoes,
    h.samples, fun n _ hu => (hu.not_interrupted hsuffix rfl).elim⟩,
    fun n _ hu => (hu.not_interrupted hsuffix rfl).elim⟩

/-- **The tally is kept by all that happens while the crew is waited for.** -/
theorem internalStep {set : Setting} (h : Running plan size pool base back es w)
    (hplan : plan.payload = .fixed size) (hdials : w.dials = []) (hs : World.InternalStep set w w') :
    ∃ es', Running plan size pool base back es' w' := by
  cases hs with
  | signal hsignal => exact ⟨es, h.interrupted hsignal⟩
  | arrived hd | declined hd => simp [hdials] at hd
  | @echoed i k t latency hk hs =>
    have hc := h.workers k (List.mem_of_getElem? hk)
    refine ⟨_, h.set_worker [.roundEnded k.client.id none] hk (hc.advance hs) rfl rfl rfl rfl rfl
      rfl ?_ fun _ => ⟨rfl, fun _ _ _ hdone => by cases hdone⟩⟩
    exact (congrArg List.length (Sink.messages_record_message ..)).trans List.length_append
  | @broken i k t e hk hs =>
    have hc := h.workers k (List.mem_of_getElem? hk)
    have hcounted : k.counted = k.completed := by simp only [Worker.counted, hs]
    refine ⟨_, h.set_worker [.roundEnded k.client.id (some e)] hk (hc.halt hcounted) rfl rfl rfl rfl
      rfl rfl rfl fun hclean => ?_⟩
    have := hclean _ List.mem_cons_self
    cases this
  | @start i length k source hk hs hactive hb hp =>
    have hc := h.workers k (List.mem_of_getElem? hk)
    have hlength : length = size := by
      rw [hc.follows, hplan] at hp
      exact PayloadSize.sample_allows hp
    have hstart := hc.start hs hb ((Payload.fill_length length source).trans hlength)
      set.options w.now w.network (Payload.fill length source).2
    exact ⟨_, h.set_worker [.roundStarted k.client.id] hk hstart rfl rfl rfl rfl rfl rfl rfl
      fun _ => ⟨rfl, fun _ _ _ hdone => by cases hdone⟩⟩
  | @retire i k hk hs hstop =>
    have hc := h.workers k (List.mem_of_getElem? hk)
    have hcounted : k.counted = k.completed := by simp only [Worker.counted, hs]
    refine ⟨_, h.set_worker [] hk (hc.halt hcounted) rfl rfl rfl rfl rfl rfl rfl
      fun _ => ⟨rfl, fun n hn hactive _ => ?_⟩⟩
    have hle : k.completed ≤ n := by
      have := hc.budget n hn
      simpa only [Worker.begun, hs] using this
    have hspent : k.hasBudget = false := by simpa [hactive] using hstop
    rw [← hc.follows] at hn
    simp only [Worker.hasBudget, hn, decide_eq_false_iff_not] at hspent
    dsimp only
    omega

theorem tick (h : Running plan size pool base back es w) (t : Duration) :
    Running plan size pool base back es (w.tick t) :=
  ⟨⟨h.events, h.signals, h.workers, h.clients, h.pool, h.echoes, h.samples,
    fun n hn hu => h.intact n hn ⟨hu.clean, hu.stopped, hu.signals⟩⟩,
    fun n hn hu => h.flag n hn ⟨hu.clean, hu.stopped, hu.signals⟩⟩

theorem cancel (h : Running plan size pool base back es w) (failures : List Failure)
    (hwhy : plan.rounds = none ∨ w.failures ≠ []) :
    Running plan size pool base back es ({ w with failures } : World).cancel := by
  refine ⟨⟨h.events, h.signals, h.workers, h.clients, h.pool, h.echoes, h.samples,
    fun n hn hu => h.intact n hn ⟨hu.clean, hu.stopped, hu.signals⟩⟩, fun n hn hu => ?_⟩
  obtain ⟨-, hf⟩ := h.flag n hn ⟨hu.clean, hu.stopped, hu.signals⟩
  rcases hwhy with hnone | hfailures
  · rw [hnone] at hn
    cases hn
  · exact (hfailures hf).elim

theorem join (h : Running plan size pool base back es w) (hk : w.workers[i]? = some k)
    (hs : k.stage = .done) :
    Running plan size pool base (back ++ [k.client]) es
      { w with workers := w.workers.eraseIdx i } := by
  have hc := h.workers k (List.mem_of_getElem? hk)
  have hrounds : k.client.rounds = k.completed := by
    rw [hc.rounds]
    simp only [Worker.counted, hs]
  obtain ⟨hi, -⟩ := List.getElem?_eq_some_iff.1 hk
  refine ⟨⟨h.events, h.signals, fun x hx => h.workers x (List.eraseIdx_subset hx), ?_, ?_, ?_,
    h.samples, fun n hn hu => ?_⟩, fun n hn hu => h.flag n hn ⟨hu.clean, hu.stopped, hu.signals⟩⟩
  · intro c hmem
    rcases List.mem_append.1 hmem with hmem | hmem
    · exact h.clients c hmem
    · rw [List.mem_singleton.1 hmem]
      refine ⟨hc.bytes, fun n hn => ?_⟩
      have := hc.budget n hn
      rw [hrounds]
      simpa only [Worker.begun, hs] using this
  · have := h.pool
    simp only [List.length_eraseIdx, hi, if_true, List.length_append, List.length_singleton]
    omega
  · rw [h.echoes, sum_map_eraseIdx hk, List.map_append, List.sum_append, List.map_singleton,
      List.sum_singleton, hrounds]
    dsimp only
    omega
  · obtain ⟨hw, hback⟩ := h.intact n hn ⟨hu.clean, hu.stopped, hu.signals⟩
    refine ⟨fun x hx => hw x (List.eraseIdx_subset hx), fun c hmem => ?_⟩
    rcases List.mem_append.1 hmem with hmem | hmem
    · exact hback c hmem
    · rw [List.mem_singleton.1 hmem, hrounds]
      exact hw k (List.mem_of_getElem? hk) hs

end Tally.Running

namespace Tally

variable {plan : EchoPlan} {size pool : Nat} {base w w' : World} {back back' : List Client}
  {es : List Event}

theorem congr (h : Tally plan size pool base back es w) (hback : back'.Perm back)
    (hevents : w'.events = w.events) (hsignals : w'.signals = w.signals)
    (hworkers : w'.workers = w.workers) (hstopped : w'.stopped = w.stopped)
    (hsink : w'.sink.collect.messages = w.sink.collect.messages) :
    Tally plan size pool base back' es w' := by
  refine ⟨hevents.trans h.events, hsignals ▸ h.signals, hworkers ▸ h.workers,
    fun c hc => h.clients c (hback.mem_iff.1 hc), ?_, ?_, ?_, fun n hn hu => ?_⟩
  · rw [hworkers, hback.length_eq, h.pool]
  · rw [hworkers, h.echoes, (hback.map _).sum_eq]
  · rw [hsink, h.samples]
  · obtain ⟨hw, hc⟩ := h.intact n hn ⟨hu.clean, hstopped ▸ hu.stopped, hu.signals⟩
    exact ⟨hworkers ▸ hw, fun c hmem => hc c (hback.mem_iff.1 hmem)⟩

end Tally

/-! ## The whole crew -/

namespace Client

theorem totalRounds_eq (clients : List Client) :
    totalRounds clients = (clients.map Client.rounds).sum := by
  rw [totalRounds, List.sum_eq_foldl, List.foldl_map]

theorem totalBytes_eq (clients : List Client) :
    totalBytes clients = (clients.map Client.bytesSent).sum := by
  rw [totalBytes, List.sum_eq_foldl, List.foldl_map]

end Client

namespace Tally

variable {plan : EchoPlan} {size pool : Nat} {base w : World} {back : List Client}
  {es : List Event}

theorem back_length (h : Tally plan size pool base back es w) (hw : w.workers = []) :
    back.length = pool := by
  have hpool := h.pool
  rwa [hw, List.length_nil, Nat.zero_add] at hpool

theorem undisturbed (h : Tally plan size pool base back es w) (hclean : w.failedRounds = [])
    (hstopped : w.stopped = false) (hsignals : base.signals = []) : base.Undisturbed es w := by
  refine ⟨fun e he => ?_, hstopped, by simp [hsignals]⟩
  have hmem : e ∈ w.events.reverse := by
    rw [h.events]
    exact List.mem_reverse.2 (List.mem_append_left _ he)
  exact List.filterMap_eq_nil_iff.1 hclean e hmem

/-- **What a crew has done together**, when no loop of it runs any more. -/
theorem totals (h : Tally plan size pool base back es w) (hw : w.workers = []) :
    es.countP Event.isEcho = Client.totalRounds back ∧
      Client.totalBytes back = Client.totalRounds back * Frame.size size ∧
      ∀ n, plan.rounds = some n → Client.totalRounds back ≤ n * pool ∧
        (base.Undisturbed es w → Client.totalRounds back = n * pool) := by
  have hpool := h.back_length hw
  rw [Client.totalRounds_eq, Client.totalBytes_eq]
  refine ⟨?_, ?_, fun n hn => ⟨?_, fun hu => ?_⟩⟩
  · rw [h.echoes, hw, List.map_nil, List.sum_nil, Nat.zero_add]
  · rw [← List.sum_map_mul_right]
    exact congrArg List.sum (List.map_congr_left fun c hc => (h.clients c hc).1)
  · have hle := List.sum_le_card_nsmul (back.map Client.rounds) n fun x hx => by
      obtain ⟨c, hc, rfl⟩ := List.mem_map.1 hx
      exact (h.clients c hc).2 n hn
    rwa [List.length_map, hpool, smul_eq_mul, Nat.mul_comm] at hle
  · have heq := List.sum_eq_card_nsmul (back.map Client.rounds) n fun x hx => by
      obtain ⟨c, hc, rfl⟩ := List.mem_map.1 hx
      exact (h.intact n hn hu).2 c hc
    rwa [List.length_map, hpool, smul_eq_mul, Nat.mul_comm] at heq

end Tally

/-- **A crew that has come back.** All its clients are there, and the tally is complete. -/
theorem World.joinAll_tally {set : Setting} {fuel : Nat} {plan : EchoPlan} {size pool : Nat}
    {base w w' : World} {limit : Option Duration} {clients : List Client}
    {failure : Option Failure} (h : Tally.Running plan size pool base [] [] w)
    (hplan : plan.payload = .fixed size) (hlimit : limit ≠ none → plan.rounds = none)
    (hdials : w.dials = []) (hj : w.joinAll set fuel limit = .ok (w', clients, failure)) :
    ∃ es, Tally plan size pool base clients es w' ∧ w'.workers = [] ∧
      (failure = none → w'.failures = []) := by
  obtain ⟨w1, c, failures, he, rfl, rfl, hfailure⟩ := joinAll_ok hj
  have hend : (∃ es, Tally plan size pool base c.clients es w1) ∧ w1.workers = [] := by
    refine attend_rule (I := fun c w => (c.deadline ≠ none → plan.rounds = none) ∧
        w.dials = [] ∧ ∃ es, Tally.Running plan size pool base c.clients es w)
      (Q := fun w c => (∃ es, Tally plan size pool base c.clients es w) ∧ w.workers = [])
      ?_ ?_ ?_ ⟨fun hd => hlimit (by simpa using hd), hdials, [], h⟩ he
    · rintro c w t ⟨hd, hdials, es, ht⟩
      exact ⟨hd, hdials, es, ht.tick t⟩
    · rintro c w w' ⟨hd, hdials, es, ht⟩ hs
      exact ⟨hd, hs.dials_nil hdials, ht.internalStep hplan hdials hs⟩
    · rintro c w w' b ⟨hd, hdials, es, ht⟩ hr
      cases hr with
      | alarm ha =>
        have hnone := hd (by simp only [joining] at ha; simp [ha])
        exact ⟨fun h => (h rfl).elim, hdials, es, ht.cancel w.failures (.inl hnone)⟩
      | mail _ hf => exact ⟨hd, hdials, es, ht.cancel _ (.inr (by simp [hf]))⟩
      | joined hk hs => exact ⟨hd, hdials, es, ht.join hk hs⟩
      | ended he => exact ⟨⟨es, ht.toTally⟩, List.isEmpty_iff.1 he⟩
  obtain ⟨⟨es, ht⟩, hw⟩ := hend
  refine ⟨es, ht.congr (Client.sortById_perm _) rfl rfl rfl rfl rfl, hw, ?_⟩
  obtain ⟨-, -, hnone⟩ | ⟨f, -, rfl, -⟩ := hfailure
  · exact hnone
  · exact fun hnone => by cases hnone

end EchoLoad
