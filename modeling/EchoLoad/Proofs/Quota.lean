import EchoLoad.Proofs.Custody.Hands
import EchoLoad.Proofs.Tally
/-!
Quotas. Each client of a crew may have a plan of its own: how many rounds it is to do, and which
sizes its payloads may have. However the loops interleave, no client goes beyond its plan and its
counters are those of the journal; and a crew that nothing disturbs does all its rounds. Main
statements: `Quotas.internalStep` and `World.joinAll_quotas`.
-/

namespace EchoLoad

/-! ## The rounds of one client -/

namespace Event

def starts (n : Nat) (es : List Event) : Nat := es.count (.roundStarted n)

def echoes (n : Nat) (es : List Event) : Nat := es.count (.roundEnded n none)

variable {n m : Nat} {es new : List Event}

@[simp] theorem starts_started : starts n (.roundStarted n :: es) = starts n es + 1 :=
  List.count_cons_self

@[simp] theorem starts_ended {failure : Option ClientError} :
    starts n (.roundEnded m failure :: es) = starts n es := by
  simp [starts]

@[simp] theorem echoes_started : echoes n (.roundStarted m :: es) = echoes n es := by
  simp [echoes]

@[simp] theorem echoes_echoed : echoes n (.roundEnded n none :: es) = echoes n es + 1 :=
  List.count_cons_self

@[simp] theorem echoes_broken {e : ClientError} :
    echoes n (.roundEnded m (some e) :: es) = echoes n es := by
  simp [echoes]

theorem rounds_append (hstarts : .roundStarted n ∉ new) (hechoes : .roundEnded n none ∉ new) :
    starts n (new ++ es) = starts n es ∧ echoes n (new ++ es) = echoes n es := by
  rw [starts, echoes, List.count_append, List.count_append, List.count_eq_zero.2 hstarts,
    List.count_eq_zero.2 hechoes, Nat.zero_add, Nat.zero_add]
  exact ⟨rfl, rfl⟩

theorem rounds_notInLoop (hnew : ∀ e ∈ new, e.client = m) (hn : n ≠ m) :
    starts n (new ++ es) = starts n es ∧ echoes n (new ++ es) = echoes n es :=
  rounds_append (fun hmem => hn (hnew _ hmem)) (fun hmem => hn (hnew _ hmem))

theorem countP_isEcho {N : Nat} (h : ∀ e ∈ es, e.client < N) :
    es.countP isEcho = ((List.range N).map (echoes · es)).sum := by
  have hfiber : ∀ n, (fiber client n es).countP isEcho = echoes n es := by
    intro n
    have hecho : echoes n es = (fiber client n es).count (.roundEnded n none) := by
      rw [echoes, fiber, List.count_filter (by simp [client])]
    rw [hecho, List.count]
    refine List.countP_congr fun e he => ?_
    obtain ⟨-, rfl⟩ := mem_fiber.1 he
    cases e with
    | roundEnded m failure => cases failure <;> simp [isEcho, client]
    | _ => simp [isEcho]
  rw [countP_eq_sum_fibers isEcho N h]
  exact Finset.sum_congr rfl fun n _ => hfiber n

end Event

namespace Client

/-- The bytes counted are those of as many frames as rounds, each of a size that is allowed. -/
def Sized (size : PayloadSize) (c : Client) : Prop :=
  ∀ lo hi, (∀ n, size.Allows n → lo ≤ n ∧ n ≤ hi) →
    c.rounds * Frame.size lo ≤ c.bytesSent ∧ c.bytesSent ≤ c.rounds * Frame.size hi

/-- A client that is not in a loop is within its plan, and it has counted what the journal tells. -/
structure Kept (plan : Nat → EchoPlan) (es : List Event) (c : Client) : Prop where
  sized : c.Sized (plan c.id).payload
  echoes : Event.echoes c.id es = c.rounds
  begun : c.rounds ≤ Event.starts c.id es
  within : ∀ n, (plan c.id).rounds = some n → Event.starts c.id es ≤ n

/-- A client has done all the rounds that are planned for it. -/
def Spent (plan : Nat → EchoPlan) (c : Client) : Prop :=
  ∀ n, (plan c.id).rounds = some n → c.rounds = n

variable {plan : Nat → EchoPlan} {es es' : List Event} {size : PayloadSize} {c c' : Client}
  {n : Nat}

theorem Sized.of_unused (hrounds : c.rounds = 0) (hbytes : c.bytesSent = 0) : c.Sized size := by
  intro lo hi _
  rw [hrounds, hbytes, Nat.zero_mul, Nat.zero_mul]
  exact ⟨Nat.le_refl 0, Nat.le_refl 0⟩

theorem Sized.congr (h : c.Sized size) (hrounds : c'.rounds = c.rounds)
    (hbytes : c'.bytesSent = c.bytesSent) : c'.Sized size := by
  intro lo hi hsize
  rw [hrounds, hbytes]
  exact h lo hi hsize

theorem Sized.round (h : c.Sized size) (hn : size.Allows n) (hrounds : c'.rounds = c.rounds + 1)
    (hbytes : c'.bytesSent = c.bytesSent + Frame.size n) : c'.Sized size := by
  intro lo hi hsize
  obtain ⟨hleast, hmost⟩ := h lo hi hsize
  obtain ⟨hlo, hhi⟩ := hsize n hn
  have hframe : Frame.size lo ≤ Frame.size n ∧ Frame.size n ≤ Frame.size hi :=
    ⟨Nat.add_le_add_left hlo _, Nat.add_le_add_left hhi _⟩
  rw [hrounds, hbytes, Nat.succ_mul, Nat.succ_mul]
  omega

theorem Kept.congr (h : c.Kept plan es)
    (hsame : Event.starts c.id es' = Event.starts c.id es ∧
      Event.echoes c.id es' = Event.echoes c.id es) : c.Kept plan es' :=
  ⟨h.sized, hsame.2.trans h.echoes, h.begun.trans_eq hsame.1.symm,
    fun n hn => hsame.1.trans_le (h.within n hn)⟩

end Client

/-! ## One loop -/

namespace Worker

/-- A loop is within the plan of its client, and it has counted what the journal tells. -/
structure Keeps (plan : Nat → EchoPlan) (es : List Event) (k : Worker) : Prop where
  follows : k.plan = plan k.id
  rounds : k.client.rounds = k.counted
  sized : k.client.Sized (plan k.id).payload
  echoes : Event.echoes k.id es = k.completed
  completed : k.completed ≤ Event.starts k.id es
  starts : k.stage ≠ .done → Event.starts k.id es = k.begun
  within : ∀ n, (plan k.id).rounds = some n → Event.starts k.id es ≤ n

namespace Keeps

variable {plan : Nat → EchoPlan} {es es' : List Event} {k : Worker}

theorem congr (h : k.Keeps plan es)
    (hsame : Event.starts k.id es' = Event.starts k.id es ∧
      Event.echoes k.id es' = Event.echoes k.id es) : k.Keeps plan es' :=
  ⟨h.follows, h.rounds, h.sized, hsame.2.trans h.echoes, h.completed.trans_eq hsame.1.symm,
    fun hs => hsame.1.trans (h.starts hs), fun n hn => hsame.1.trans_le (h.within n hn)⟩

theorem start (h : k.Keeps plan es) (hs : k.stage = .ready) (hb : k.hasBudget = true)
    {payload : Bytes} (hpayload : k.plan.payload.Allows payload.length) (o : ClientOptions)
    (now : Duration) (net : Network) (source : Source) :
    ({ k with
      client := (k.client.echoRound o now payload net).client
      source, stage := .busy (k.client.echoRound o now payload net).ending } : Worker).Keeps
        plan (.roundStarted k.id :: es) := by
  have hrounds : k.client.rounds = k.completed := by
    rw [h.rounds]
    simp only [counted, hs]
  have hstarts : Event.starts k.id (.roundStarted k.id :: es) = k.completed + 1 := by
    have hready : k.stage ≠ .done := by simp [hs]
    rw [Event.starts_started, h.starts hready]
    simp only [begun, hs]
  have hwithin : ∀ n, (plan k.id).rounds = some n → k.completed + 1 ≤ n :=
    h.follows ▸ hasBudget_iff.1 hb
  let k' : Worker := { k with
    client := (k.client.echoRound o now payload net).client
    source, stage := .busy (k.client.echoRound o now payload net).ending }
  have hid : k'.id = k.id := Client.echoRound_id ..
  have hcounts : k'.client.rounds = k'.counted ∧ k'.client.Sized (plan k.id).payload := by
    have hround := k.client.echoRound_counts o now payload net
    rw [h.follows] at hpayload
    rcases he : (k.client.echoRound o now payload net).ending with _ | ⟨t, e | latency⟩ <;>
      rw [he] at hround <;> obtain ⟨h1, h2⟩ := hround <;> simp only [k', counted, he]
    · exact ⟨h1.trans hrounds, h.sized.congr h1 h2⟩
    · exact ⟨h1.trans hrounds, h.sized.congr h1 h2⟩
    · exact ⟨h1.trans (congrArg (· + 1) hrounds), h.sized.round hpayload h1 h2⟩
  refine ⟨h.follows.trans (congrArg plan hid.symm), hcounts.1, hid.symm ▸ hcounts.2, ?_, ?_,
    fun _ => ?_, fun n hn => ?_⟩
  · rw [hid, Event.echoes_started]
    exact h.echoes
  · rw [hid, hstarts]
    exact Nat.le_succ _
  · rw [hid]
    exact hstarts
  · rw [hid] at hn ⊢
    exact hstarts.trans_le (hwithin n hn)

theorem advance (h : k.Keeps plan es) {t latency : Duration}
    (hs : k.stage = .busy (some (t, .ok latency))) :
    k.advance.Keeps plan (.roundEnded k.id none :: es) := by
  have hcounted := h.rounds
  have hbegun := h.starts (by simp [hs])
  simp only [counted, begun, hs] at hcounted hbegun
  refine ⟨h.follows, hcounted, h.sized, ?_, ?_, fun _ => ?_, fun n hn => ?_⟩
  · exact Event.echoes_echoed.trans (congrArg (· + 1) h.echoes)
  · exact (Event.starts_ended.trans hbegun).ge
  · exact Event.starts_ended.trans hbegun
  · exact Event.starts_ended.trans_le (h.within n hn)

theorem halt (h : k.Keeps plan es) (hcounted : k.counted = k.completed) :
    ({ k with stage := .done } : Worker).Keeps plan es :=
  ⟨h.follows, h.rounds.trans hcounted, h.sized, h.echoes, h.completed,
    fun hdone => (hdone rfl).elim, h.within⟩

theorem kept (h : k.Keeps plan es) (hs : k.stage = .done) : k.client.Kept plan es := by
  have hcounted := h.rounds
  simp only [counted, hs] at hcounted
  exact ⟨h.sized, h.echoes.trans hcounted.symm, hcounted.trans_le h.completed, h.within⟩

/-- A loop that ends while the flag is set has spent its budget. -/
theorem spent (h : k.Keeps plan es) (hs : k.stage = .ready) (hb : k.hasBudget = false) :
    k.client.Spent plan := by
  intro n hn
  have hcounted := h.rounds
  have hbegun := h.starts (by simp [hs])
  simp only [counted, begun, hs] at hcounted hbegun
  have hwithin := h.within n hn
  have hplan : k.plan.rounds = some n := by rw [h.follows]; exact hn
  simp only [hasBudget, hplan, decide_eq_false_iff_not] at hb
  omega

end Keeps

end Worker

/-! ## Who else there is -/

namespace Custody

variable {o : ClientOptions} {held : List Client} {w : World} {i : Nat} {k : Worker}

theorem mem_set (h : Custody o held w) {x k' : Worker} (hk : w.workers[i]? = some k)
    (hid : k'.id = k.id) (hx : x ∈ w.workers.set i k') :
    x = k' ∨ x ∈ w.workers ∧ x.id ≠ k.id := by
  obtain ⟨conn, es, hv, -⟩ := h.at_worker hk
  have hfiber : fiber Worker.id k.id w.workers = [k] := congrArg View.workers hv
  by_cases hxid : x.id = k.id
  · have hmem := mem_fiber.2 ⟨hx, hxid⟩
    rw [fiber_set_self hk hfiber hid] at hmem
    exact .inl (List.mem_singleton.1 hmem)
  · rcases List.mem_or_eq_of_mem_set hx with hx | rfl
    · exact .inr ⟨hx, hxid⟩
    · exact .inl rfl

theorem hand_ne (h : Custody o held w) {c : Client} (hk : w.workers[i]? = some k)
    (hc : c ∈ held) : c.id ≠ k.id := by
  intro hid
  obtain ⟨conn, es, hv, -⟩ := h.at_worker hk
  have hnone : fiber Client.id k.id (held ++ w.connected) = [] := congrArg View.hands hv
  have hmem := mem_fiber.2 ⟨List.mem_append_left w.connected hc, hid⟩
  rw [hnone] at hmem
  cases hmem

end Custody

/-! ## A crew -/

/-- A crew with a plan for each client, of which those in `back` have come back. Left alone its
loops may go on, and those that have ended have done all their rounds. -/
structure Quotas (o : ClientOptions) (plan : Nat → EchoPlan) (base : World) (back : List Client)
    (w : World) : Prop where
  custody : Custody o back w
  dials : w.dials = []
  signals : w.signals <:+ base.signals
  workers : ∀ k ∈ w.workers, k.Keeps plan w.events
  kept : ∀ c ∈ back, c.Kept plan w.events
  flag : base.Undisturbed w.events w → w.active = true ∧ w.failures = []
  spent : base.Undisturbed w.events w →
    (∀ k ∈ w.workers, k.stage = .done → k.client.Spent plan) ∧ ∀ c ∈ back, c.Spent plan

namespace Quotas

variable {o : ClientOptions} {set : Setting} {plan : Nat → EchoPlan} {base w w' : World}
  {back : List Client} {i : Nat} {k : Worker}

theorem set_worker (h : Quotas o plan base back w) (k' : Worker) (new : List Event)
    (hk : w.workers[i]? = some k) (hkeeps : k'.Keeps plan (new ++ w.events)) (hid : k'.id = k.id)
    (hnew : ∀ e ∈ new, e.client = k.id) (hcustody : Custody o back w')
    (hworkers : w'.workers = w.workers.set i k') (hevents : w'.events = new ++ w.events)
    (hdials : w'.dials = w.dials) (hsignals : w'.signals = w.signals)
    (hactive : w'.active = w.active) (hstopped : w'.stopped = w.stopped)
    (hintact : (∀ e ∈ new, e.failedRound? = none) → w'.failures = w.failures ∧
      (w.active = true → k'.stage = .done → k'.client.Spent plan)) :
    Quotas o plan base back w' := by
  have hbefore : base.Undisturbed w'.events w' →
      base.Undisturbed w.events w ∧ ∀ e ∈ new, e.failedRound? = none := by
    intro hu
    have hclean := hu.clean
    rw [hevents] at hclean
    exact ⟨⟨fun e he => hclean e (List.mem_append_right _ he), hstopped ▸ hu.stopped, hu.signals⟩,
      fun e he => hclean e (List.mem_append_left _ he)⟩
  refine ⟨hcustody, hdials.trans h.dials, hsignals ▸ h.signals, ?_, ?_, fun hu => ?_, fun hu => ?_⟩
  · intro x hx
    rw [hworkers] at hx
    rw [hevents]
    rcases h.custody.mem_set hk hid hx with rfl | ⟨hx, hne⟩
    · exact hkeeps
    · exact (h.workers x hx).congr (Event.rounds_notInLoop hnew hne)
  · intro c hc
    rw [hevents]
    exact (h.kept c hc).congr (Event.rounds_notInLoop hnew (h.custody.hand_ne hk hc))
  · obtain ⟨hu, hnew⟩ := hbefore hu
    obtain ⟨ha, hf⟩ := h.flag hu
    exact ⟨hactive.trans ha, (hintact hnew).1.trans hf⟩
  · obtain ⟨hu, hnew⟩ := hbefore hu
    obtain ⟨hw, hc⟩ := h.spent hu
    refine ⟨?_, hc⟩
    rw [hworkers]
    exact forall_mem_set hw ((hintact hnew).2 (h.flag hu).1)

theorem interrupted (h : Quotas o plan base back w) {t : Duration} {s : Signal}
    {rest : List (Duration × Signal)} (hs : w.signals = (t, s) :: rest) :
    Quotas o plan base back w.interrupted := by
  have hcustody := h.custody.interrupted
  have hsuffix : (t, s) :: rest <:+ base.signals := hs ▸ h.signals
  rw [World.interrupted_eq hs] at hcustody ⊢
  exact ⟨hcustody, h.dials, (List.suffix_cons _ _).trans hsuffix, h.workers, h.kept,
    fun hu => (hu.not_interrupted hsuffix rfl).elim,
    fun hu => (hu.not_interrupted hsuffix rfl).elim⟩

/-- **A crew keeps to its plans** in all that happens while it is waited for. -/
theorem internalStep (h : Quotas set.options plan base back w) (hs : World.InternalStep set w w') :
    Quotas set.options plan base back w' := by
  have hcustody := hs.custody h.custody
  cases hs with
  | signal hsignal => exact h.interrupted hsignal
  | arrived hd | declined hd => simp [h.dials] at hd
  | @echoed i k t latency hk hs =>
    have hk' := h.workers k (List.mem_of_getElem? hk)
    exact h.set_worker k.advance [.roundEnded k.id none] hk (hk'.advance hs) rfl
      (by simp [Event.client]) hcustody rfl rfl rfl rfl rfl rfl
      fun _ => ⟨rfl, fun _ hdone => by cases hdone⟩
  | @broken i k t e hk hs =>
    have hk' := h.workers k (List.mem_of_getElem? hk)
    have hcounted : k.counted = k.completed := by simp only [Worker.counted, hs]
    have hkeeps : ({ k with stage := .done } : Worker).Keeps plan
        ([.roundEnded k.id (some e)] ++ w.events) :=
      (hk'.halt hcounted).congr ⟨Event.starts_ended, Event.echoes_broken⟩
    refine h.set_worker { k with stage := .done } [.roundEnded k.id (some e)] hk hkeeps rfl
      (by simp [Event.client]) hcustody rfl rfl rfl rfl rfl rfl fun hclean => ?_
    have hfailed := hclean _ List.mem_cons_self
    cases hfailed
  | @start i length k source hk hs hactive hb hp =>
    have hk' := h.workers k (List.mem_of_getElem? hk)
    have hpayload : k.plan.payload.Allows (Payload.fill length source).1.length := by
      rw [Payload.fill_length]
      exact PayloadSize.sample_allows hp
    exact h.set_worker _ [.roundStarted k.id] hk (hk'.start hs hb hpayload set.options w.now
      w.network (Payload.fill length source).2) (Client.echoRound_id ..) (by simp [Event.client])
      hcustody rfl rfl rfl rfl rfl rfl fun _ => ⟨rfl, fun _ hdone => by cases hdone⟩
  | @retire i k hk hs hstop =>
    have hk' := h.workers k (List.mem_of_getElem? hk)
    have hcounted : k.counted = k.completed := by simp only [Worker.counted, hs]
    refine h.set_worker { k with stage := .done } [] hk (hk'.halt hcounted) rfl (by simp) hcustody
      rfl rfl rfl rfl rfl rfl fun _ => ⟨rfl, fun hactive _ => ?_⟩
    exact hk'.spent hs (by simpa [hactive] using hstop)

theorem tick (h : Quotas o plan base back w) (t : Duration) :
    Quotas o plan base back (w.tick t) :=
  ⟨h.custody, h.dials, h.signals, h.workers, h.kept,
    fun hu => h.flag ⟨hu.clean, hu.stopped, hu.signals⟩,
    fun hu => h.spent ⟨hu.clean, hu.stopped, hu.signals⟩⟩

theorem cancel (h : Quotas o plan base back w) (failures : List Failure)
    (hfailures : w.failures ≠ []) :
    Quotas o plan base back ({ w with failures } : World).cancel :=
  ⟨h.custody, h.dials, h.signals, h.workers, h.kept,
    fun hu => (hfailures (h.flag ⟨hu.clean, hu.stopped, hu.signals⟩).2).elim,
    fun hu => h.spent ⟨hu.clean, hu.stopped, hu.signals⟩⟩

theorem join (h : Quotas o plan base back w) (hk : w.workers[i]? = some k)
    (hs : k.stage = .done) :
    Quotas o plan base (back ++ [k.client]) { w with workers := w.workers.eraseIdx i } := by
  have hmem := List.mem_of_getElem? hk
  refine ⟨h.custody.join hk hs, h.dials, h.signals,
    fun x hx => h.workers x (List.eraseIdx_subset hx), fun c hc => ?_,
    fun hu => h.flag ⟨hu.clean, hu.stopped, hu.signals⟩, fun hu => ?_⟩
  · rcases List.mem_append.1 hc with hc | hc
    · exact h.kept c hc
    · rw [List.mem_singleton.1 hc]
      exact (h.workers k hmem).kept hs
  · obtain ⟨hw, hback⟩ := h.spent ⟨hu.clean, hu.stopped, hu.signals⟩
    refine ⟨fun x hx => hw x (List.eraseIdx_subset hx), fun c hc => ?_⟩
    rcases List.mem_append.1 hc with hc | hc
    · exact hback c hc
    · rw [List.mem_singleton.1 hc]
      exact hw k hmem hs

end Quotas

/-- **A crew that has come back** is within its plans, and has done all its rounds if nothing has
disturbed it. -/
theorem World.joinAll_quotas {set : Setting} {fuel : Nat} {plan : Nat → EchoPlan}
    {base w w' : World} {clients : List Client} {failure : Option Failure}
    (h : Quotas set.options plan base [] w)
    (hj : w.joinAll set fuel none = .ok (w', clients, failure)) :
    (∀ c ∈ clients, c.Kept plan w'.events) ∧
      (base.Undisturbed w'.events w' → ∀ c ∈ clients, c.Spent plan) := by
  have hwait : ∀ {w1 : World} {c : Crew}, w.attend set joining fuel {} = .ok (w1, c) →
      Quotas set.options plan base c.clients w1 := by
    intro w1 c ha
    refine (attend_rule (I := fun c w => c.deadline = none ∧
        Quotas set.options plan base c.clients w)
      (Q := fun w c => c.deadline = none ∧ Quotas set.options plan base c.clients w)
      ?_ ?_ ?_ ⟨rfl, h⟩ ha).2
    · exact fun _ _ t h => ⟨h.1, h.2.tick t⟩
    · exact fun _ _ _ h hs => ⟨h.1, h.2.internalStep hs⟩
    · rintro c w w' b ⟨hd, hq⟩ hr
      cases hr with
      | alarm ha => cases hd.symm.trans ha
      | mail _ hf => exact ⟨hd, hq.cancel _ (by simp [hf])⟩
      | joined hk hs => exact ⟨hd, hq.join hk hs⟩
      | ended => exact ⟨hd, hq⟩
  obtain ⟨w1, c, failures, ha, rfl, rfl, -⟩ := joinAll_ok hj
  have hback := hwait ha
  have hmem : ∀ {x}, x ∈ Client.sortById c.clients → x ∈ c.clients :=
    (Client.sortById_perm _).mem_iff.1
  exact ⟨fun x hx => hback.kept x (hmem hx), fun hu x hx =>
    (hback.spent ⟨hu.clean, hu.stopped, hu.signals⟩).2 x (hmem hx)⟩

end EchoLoad
