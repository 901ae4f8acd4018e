import EchoLoad.Proofs.Tally
import EchoLoad.Random.SplitMix
/-!
One echo loop from its start to its end. It takes its turns in a world that is not its own: between
two of them the run flag, the network, the channels and the other loops may change in any way. Main
statements: `loop_contract`, and `History.step`, by which every run is made of such turns.
-/

namespace EchoLoad

/-! ## Payloads one after the other -/

namespace PayloadSize

variable {size : PayloadSize} {s s' : Source} {n : Nat} {lengths : List Nat}

/-- The lengths of the first `n` payloads, and the source behind them. Each length is drawn behind
the symbols of the payload before it. -/
def drawn (size : PayloadSize) (s : Source) : Nat → Option (List Nat × Source)
  | 0 => some ([], s)
  | n + 1 =>
    (drawn size s n).bind fun (lengths, s) =>
      (size.sample s).map fun (length, s) => (lengths ++ [length], (Payload.fill length s).2)

theorem drawn_succ {length : Nat} {s'' : Source} (h : size.drawn s n = some (lengths, s'))
    (hs : size.sample s' = some (length, s'')) :
    size.drawn s (n + 1) = some (lengths ++ [length], (Payload.fill length s'').2) := by
  simp [drawn, h, hs]

theorem drawn_allows (h : size.drawn s n = some (lengths, s')) :
    lengths.length = n ∧ ∀ length ∈ lengths, size.Allows length := by
  induction n generalizing lengths s' with
  | zero =>
    cases h
    simp
  | succ n ih =>
    obtain ⟨⟨lengths, s₁⟩, h₁, h⟩ := Option.bind_eq_some_iff.1 h
    obtain ⟨⟨length, s₂⟩, h₂, he⟩ := Option.map_eq_some_iff.1 h
    cases he
    obtain ⟨hlen, hall⟩ := ih h₁
    constructor
    · simp [hlen]
    · intro x hx
      rcases List.mem_append.1 hx with hx | hx
      · exact hall x hx
      · rw [List.mem_singleton.1 hx]
        exact sample_allows h₂

end PayloadSize

namespace Client

/-- Whatever the network is like, an exchange fails its client, or leaves it and does not fail. -/
theorem exchange_keeps_or_fails (o : ClientOptions) (c : Client) (now : Duration) (payload : Bytes)
    (net : Network) :
    (∃ net' t e, c.exchange o now payload net = ⟨c.failed, net', some (t, .error e)⟩) ∨
      (∃ net' t latency, c.exchange o now payload net = ⟨c, net', some (t, .ok latency)⟩) ∨
      ∃ net', c.exchange o now payload net = ⟨c, net', none⟩ := by
  cases hheld : c.stream.bind fun n => net.connections[n]?.map (n, ·) with
  | none =>
    simp only [exchange, hheld]
    exact .inl ⟨_, _, _, rfl⟩
  | some held =>
    obtain ⟨n, conn⟩ := held
    simp only [exchange, hheld]
    rcases conn.exchange now o.ioTimeout payload with ⟨conn', _ | ⟨t, e | latency⟩⟩
    · exact .inr (.inr ⟨_, rfl⟩)
    · exact .inl ⟨_, _, _, rfl⟩
    · exact .inr (.inl ⟨_, _, _, rfl⟩)

/-- How a round on an open client can go, whatever the network is like. -/
theorem echoRound_cases (o : ClientOptions) {c : Client} (now : Duration) (payload : Bytes)
    (net : Network) (hopen : c.isOpen = true) :
    (∃ net' t e, c.echoRound o now payload net = ⟨c.failed, net', some (t, .error e)⟩) ∨
      (∃ net' t latency, c.echoRound o now payload net =
        ⟨{ c with
            state := .active
            bytesSent := c.bytesSent + Frame.size payload.length
            rounds := c.rounds + 1 }, net', some (t, .ok latency)⟩) ∨
      ∃ net', c.echoRound o now payload net = ⟨{ c with state := .active }, net', none⟩ := by
  simp only [echoRound, hopen, if_true]
  obtain ⟨net', t, e, he⟩ | ⟨net', t, latency, he⟩ | ⟨net', he⟩ :=
    exchange_keeps_or_fails o { c with state := .active } now payload net
  · simp only [he]
    exact .inl ⟨_, _, _, rfl⟩
  · simp only [he]
    exact .inr (.inl ⟨_, _, _, rfl⟩)
  · simp only [he]
    exact .inr (.inr ⟨_, rfl⟩)

end Client

/-! ## Turns -/

namespace Worker

def mayContinue (k : Worker) (now : Duration) : Bool :=
  match k.stage with
  | .ready => true
  | .busy (some (t, _)) => t ≤ now
  | _ => false

theorem mayGo_iff {k : Worker} {now : Duration} : k.mayContinue now = true ↔
    k.stage = .ready ∨ ∃ t result, k.stage = .busy (some (t, result)) ∧ t ≤ now := by
  unfold mayContinue
  split <;> simp_all

/-- A turn of a loop: the world that it finds, its place among the loops, and what it leaves. -/
structure Turn where
  before : World
  place : Nat
  after : World

namespace Turn

def isDue (t : Turn) : Bool :=
  t.before.workers[t.place]?.any fun k => k.mayContinue t.before.now

/-- How the round came out that the loop comes back from, if it was in one. -/
def result? (t : Turn) : Option (Except ClientError Duration) :=
  match t.before.workers[t.place]?.map Worker.stage with
  | some (.busy (some (_, result))) => some result
  | _ => none

def echo? (t : Turn) : Option Duration := t.result?.bind Except.toOption

def error? (t : Turn) : Option ClientError :=
  t.result?.bind fun
    | .error e => some e
    | .ok _ => none

def starts (t : Turn) : Bool :=
  match t.after.workers[t.place]?.map Worker.stage with
  | some (.busy _) => true
  | _ => false

def recorded (t : Turn) : List Duration :=
  t.after.sink.collect.messages.drop t.before.sink.collect.messages.length

def sent (t : Turn) : List Failure := t.after.failures.drop t.before.failures.length

/-- What was on the sink and on the channel stays there. -/
structure Keeps (t : Turn) : Prop where
  messages : t.before.sink.collect.messages <+: t.after.sink.collect.messages
  joins : t.after.sink.collect.joins = t.before.sink.collect.joins
  failures : t.before.failures <+: t.after.failures

end Turn

def echoes (turns : List Turn) : List Duration := turns.reverse.filterMap Turn.echo?

def errors (turns : List Turn) : List ClientError := turns.reverse.filterMap Turn.error?

def recorded (turns : List Turn) : List Duration := turns.reverse.flatMap Turn.recorded

def sent (turns : List Turn) : List Failure := turns.reverse.flatMap Turn.sent

/-- An echo loop for the client `c` as some turns have left it, the latest first. Each is taken when
it is due. Meanwhile anything may happen that leaves the loop alone, and its place may change. -/
inductive History (set : Setting) (c : Client) (plan : EchoPlan) (source : Source) :
    List Turn → World → Nat → Prop
  | spawned {w : World} {i : Nat} : w.workers[i]? = some { client := c, plan, source } →
      History set c plan source [] w i
  | turn {turns : List Turn} {t : Turn} :
      History set c plan source turns t.before t.place → t.isDue = true →
        t.before.work set t.place = .ok t.after →
        History set c plan source (t :: turns) t.after t.place
  | meanwhile {turns : List Turn} {w w' : World} {i i' : Nat} :
      History set c plan source turns w i → w'.workers[i']? = w.workers[i]? →
        History set c plan source turns w' i'

variable {set : Setting} {c : Client} {plan : EchoPlan} {source s : Source} {turns : List Turn}
  {t : Turn} {k : Worker} {w w' : World} {i r length : Nat} {es : List ClientError}

theorem echoes_cons (t : Turn) (turns : List Turn) :
    echoes (t :: turns) = echoes turns ++ t.echo?.toList := by
  cases h : t.echo? <;> simp [echoes, h]

theorem errors_cons (t : Turn) (turns : List Turn) :
    errors (t :: turns) = errors turns ++ t.error?.toList := by
  cases h : t.error? <;> simp [errors, h]

/-! ## One turn -/

/-- A loop for `c` at its top: the rounds that it has completed are on the counters of its client. -/
structure AtTop (c : Client) (plan : EchoPlan) (source : Source) (k : Worker) : Prop where
  follows : k.plan = plan
  isOpen : k.client.isOpen = true
  id : k.client.id = c.id
  rounds : k.client.rounds = c.rounds + k.completed
  bytes : ∃ lengths, plan.payload.drawn source k.completed = some (lengths, k.source) ∧
    k.client.bytesSent = c.bytesSent + (lengths.map Frame.size).sum
  within : ∀ n, plan.rounds = some n → k.completed ≤ n

def inRound (k : Worker) (o : ClientOptions) (now : Duration) (net : Network) (length : Nat)
    (s : Source) : Worker :=
  let call := k.client.echoRound o now (Payload.fill length s).1 net
  { k with client := call.client, source := (Payload.fill length s).2, stage := .busy call.ending }

theorem AtTop.advance {o : ClientOptions} {now t latency : Duration} {net : Network}
    (h : AtTop c plan source k) (hbudget : k.hasBudget = true)
    (hsample : k.plan.payload.sample k.source = some (length, s))
    (hstage : (k.inRound o now net length s).stage = .busy (some (t, .ok latency))) :
    AtTop c plan source (k.inRound o now net length s).advance := by
  obtain ⟨lengths, hdrawn, hbytes⟩ := h.bytes
  rw [h.follows] at hsample
  obtain ⟨net', t', e, he⟩ | ⟨net', t', latency', he⟩ | ⟨net', he⟩ :=
    k.client.echoRound_cases o now (Payload.fill length s).1 net h.isOpen
  · simp [inRound, he] at hstage
  · constructor
    · exact h.follows
    · simp [inRound, Worker.advance, he, Client.isOpen]
    · simpa [inRound, Worker.advance, he] using h.id
    · simp [inRound, Worker.advance, he, h.rounds, Nat.add_assoc]
    · refine ⟨_, PayloadSize.drawn_succ hdrawn hsample, ?_⟩
      simp [inRound, Worker.advance, he, hbytes, Payload.fill_length, Nat.add_assoc]
    · intro n hn
      exact hasBudget_iff.1 hbudget n (h.follows ▸ hn)
  · simp [inRound, he] at hstage

/-- A loop at its top starts a round while the flag is set and its budget lasts, and ends otherwise. -/
theorem AtTop.proceed (h : AtTop c plan source k) {k₁ : Worker} (hk : w.workers[i]? = some k₁)
    (hproceed : w.proceed set i k = .ok w') :
    w'.sink = w.sink ∧ w'.failures = w.failures ∧
      ((w.active = true ∧ k.hasBudget = true ∧ ∃ length s now net,
          k.plan.payload.sample k.source = some (length, s) ∧
            w'.workers[i]? = some (k.inRound set.options now net length s)) ∨
        ((w.active = false ∨ w.active = true ∧ plan.rounds = some k.completed) ∧
          w'.workers[i]? = some { k with stage := .done })) := by
  obtain ⟨hi, -⟩ := List.getElem?_eq_some_iff.1 hk
  unfold World.proceed at hproceed
  split at hproceed
  · next hgo =>
    obtain ⟨hactive, hbudget⟩ := Bool.and_eq_true_iff.1 hgo
    split at hproceed
    · cases hproceed
    · next length s hsample =>
      cases hproceed
      exact ⟨rfl, rfl, .inl ⟨hactive, hbudget, length, s, w.now, w.network, hsample,
        List.getElem?_set_self hi⟩⟩
  · next hgo =>
    cases hproceed
    refine ⟨rfl, rfl, .inr ⟨?_, List.getElem?_set_self hi⟩⟩
    cases hactive : w.active with
    | false => exact .inl rfl
    | true =>
      have hspent : ¬k.hasBudget = true := by simpa [hactive] using hgo
      rw [hasBudget_iff, h.follows] at hspent
      push Not at hspent
      obtain ⟨n, hn, hle⟩ := hspent
      exact .inr ⟨rfl, hn.trans (congrArg some (Nat.le_antisymm hle (h.within n hn)))⟩

/-- What the turns of a loop tell: `r` rounds were echoed, and these errors came up. A loop has its
first turn before its first round. -/
structure TurnResults (turns : List Turn) (r : Nat) (es : List ClientError) : Prop where
  echoes : (echoes turns).length = r
  errors : errors turns = es
  turns : turns.length = r + es.length + 1

theorem TurnResults.start (hnone : t.result? = none) : TurnResults [t] 0 [] := by
  constructor <;> simp [Worker.echoes, Worker.errors, Turn.echo?, Turn.error?, hnone]

theorem TurnResults.echo {latency : Duration} (h : TurnResults turns r es)
    (hecho : t.result? = some (.ok latency)) : TurnResults (t :: turns) (r + 1) es := by
  constructor
  · simp [echoes_cons, Turn.echo?, hecho, h.echoes, Except.toOption]
  · simp [errors_cons, Turn.error?, hecho, h.errors]
  · simp [h.turns, Nat.add_right_comm]

theorem TurnResults.error {e : ClientError} (h : TurnResults turns r es)
    (herror : t.result? = some (.error e)) : TurnResults (t :: turns) r (es ++ [e]) := by
  constructor
  · simp [echoes_cons, Turn.echo?, herror, h.echoes, Except.toOption]
  · simp [errors_cons, Turn.error?, herror, h.errors]
  · simp [h.turns]
    omega

/-- How a loop for `c` can stand after some turns. -/
inductive LoopState (set : Setting) (c : Client) (plan : EchoPlan) (source : Source) :
    List Turn → Worker → Prop
  | fresh : LoopState set c plan source [] { client := c, plan, source }
  | busy {turns : List Turn} {k : Worker} {now : Duration} {net : Network} {length : Nat}
      {s : Source} : AtTop c plan source k → k.hasBudget = true →
      k.plan.payload.sample k.source = some (length, s) → TurnResults turns k.completed [] →
      LoopState set c plan source turns (k.inRound set.options now net length s)
  | failed {turns : List Turn} {k : Worker} {s : Source} {e : ClientError} :
      AtTop c plan source k → k.hasBudget = true → TurnResults turns k.completed [e] →
      LoopState set c plan source turns
        { k with client := k.client.failed, source := s, stage := .done }
  | ended {turns : List Turn} {k : Worker} {last : Turn} : AtTop c plan source k →
      TurnResults (last :: turns) k.completed [] →
      last.before.active = false ∨ last.before.active = true ∧ plan.rounds = some k.completed →
      LoopState set c plan source (last :: turns) { k with stage := .done }

/-- What a turn does besides moving its loop. It records a sample for a round that was echoed and
sends a failure for one that was not, and it starts a round only while the flag is set. -/
structure Turn.Does (c : Client) (t : Turn) : Prop where
  messages : t.after.sink.collect.messages = t.before.sink.collect.messages ++ t.echo?.toList
  joins : t.after.sink.collect.joins = t.before.sink.collect.joins
  failures : t.after.failures =
    t.before.failures ++ (t.error?.map fun e => ⟨c.id, e⟩).toList
  starts : t.starts = true → t.before.active = true

theorem Turn.result?_eq (hk : t.before.workers[t.place]? = some k) :
    t.result? = match k.stage with
      | .busy (some (_, result)) => some result
      | _ => none := by
  simp only [Turn.result?, hk, Option.map_some]
  split <;> split <;> simp_all

/-- **Back at the top.** Whether the loop has just been spawned or comes back from a round that was
echoed, it goes on in the same way. -/
theorem AtTop.turn (h : AtTop c plan source k) (htold : TurnResults (t :: turns) k.completed [])
    {k₁ : Worker} (hk : w.workers[t.place]? = some k₁) (hactive : w.active = t.before.active)
    (hproceed : w.proceed set t.place k = .ok t.after) :
    (∃ k', t.after.workers[t.place]? = some k' ∧ LoopState set c plan source (t :: turns) k') ∧
      t.after.sink = w.sink ∧ t.after.failures = w.failures ∧
      (t.starts = true → t.before.active = true) := by
  obtain ⟨hsink, hfailures, ⟨hset, hbudget, length, s, now, net, hsample, hk'⟩ | ⟨hwhy, hk'⟩⟩ :=
    h.proceed hk hproceed
  · exact ⟨⟨_, hk', .busy h hbudget hsample htold⟩, hsink, hfailures,
      fun _ => hactive.symm.trans hset⟩
  · refine ⟨⟨_, hk', .ended h htold (hactive ▸ hwhy)⟩, hsink, hfailures, ?_⟩
    intro hstarts
    simp [Turn.starts, hk'] at hstarts

theorem AtTop.fresh (hopen : c.isOpen = true) :
    AtTop c plan source { client := c, plan, source } :=
  ⟨rfl, hopen, rfl, rfl, ⟨[], rfl, rfl⟩, fun _ _ => Nat.zero_le _⟩

theorem AtTop.broken {now τ : Duration} {net : Network} {e : ClientError}
    (h : AtTop c plan source k) (hbudget : k.hasBudget = true)
    (hstage : (k.inRound set.options now net length s).stage = .busy (some (τ, .error e)))
    (htold : TurnResults turns k.completed [])
    (hk : t.before.workers[t.place]? = some (k.inRound set.options now net length s))
    (hafter : t.after = t.before.broken t.place (k.inRound set.options now net length s) e) :
    (∃ k', t.after.workers[t.place]? = some k' ∧ LoopState set c plan source (t :: turns) k') ∧
      t.Does c := by
  obtain ⟨hi, -⟩ := List.getElem?_eq_some_iff.1 hk
  have hresult : t.result? = some (.error e) := by
    rw [Turn.result?_eq hk, hstage]
  have hid : (k.inRound set.options now net length s).client.id = c.id :=
    (Client.echoRound_id ..).trans h.id
  have hclient : (k.inRound set.options now net length s).client = k.client.failed := by
    obtain ⟨net', t', e', he⟩ | ⟨net', t', latency, he⟩ | ⟨net', he⟩ :=
      k.client.echoRound_cases set.options now (Payload.fill length s).1 net h.isOpen
    · simp [inRound, he]
    · simp [inRound, he] at hstage
    · simp [inRound, he] at hstage
  have hk' : t.after.workers[t.place]? =
      some { k.inRound set.options now net length s with stage := .done } := by
    rw [hafter]
    exact List.getElem?_set_self hi
  constructor
  · refine ⟨_, hk', ?_⟩
    rw [show k.inRound set.options now net length s = { k.inRound set.options now net length s with
      client := k.client.failed } by rw [← hclient]]
    exact .failed h hbudget (htold.error hresult)
  · constructor
    · simp [hafter, World.broken, World.note, Turn.echo?, hresult, Except.toOption]
    · rw [hafter]
      rfl
    · simp [hafter, World.broken, World.note, Turn.error?, hresult, hid]
    · intro hstarts
      simp [Turn.starts, hk'] at hstarts

/-- **One turn.** It takes the loop from one way to stand to another, and does what it should. -/
theorem LoopState.turn (h : LoopState set c plan source turns k) (hopen : c.isOpen = true)
    (hk : t.before.workers[t.place]? = some k) (hgo : k.mayContinue t.before.now = true)
    (hwork : t.before.work set t.place = .ok t.after) :
    (∃ k', t.after.workers[t.place]? = some k' ∧ LoopState set c plan source (t :: turns) k') ∧
      t.Does c := by
  simp only [World.work, hk] at hwork
  cases h with
  | fresh =>
    have hresult : t.result? = none := by
      rw [Turn.result?_eq hk]
    obtain ⟨hstands, hsink, hfailures, hstarts⟩ :=
      (AtTop.fresh hopen).turn (TurnResults.start hresult) hk rfl hwork
    refine ⟨hstands, ?_⟩
    constructor
    · simp [hsink, Turn.echo?, hresult]
    · rw [hsink]
    · simp [hfailures, Turn.error?, hresult]
    · exact hstarts
  | @busy _ k now net length s htop hbudget hsample htold =>
    obtain hready | ⟨τ, result, hstage, -⟩ := mayGo_iff.1 hgo
    · cases hready
    have hresult : t.result? = some result := by
      rw [Turn.result?_eq hk, hstage]
    rw [hstage] at hwork
    cases result with
    | error e =>
      exact htop.broken hbudget hstage htold hk (Except.ok.inj hwork).symm
    | ok latency =>
      obtain ⟨hstands, hsink, hfailures, hstarts⟩ :=
        (htop.advance hbudget hsample hstage).turn (htold.echo hresult)
          (World.echoed_getElem? hk) rfl hwork
      refine ⟨hstands, ?_⟩
      constructor
      · rw [hsink, Turn.echo?, hresult]
        exact Sink.messages_record_message ..
      · rw [hsink]
        exact Sink.collect_record_message ..
      · simp [hfailures, World.echoed, World.note, Turn.error?, hresult]
      · exact hstarts
  | failed => simp [mayContinue] at hgo
  | ended => simp [mayContinue] at hgo

/-! ## The whole loop -/

theorem History.loopState (h : History set c plan source turns w i) (hopen : c.isOpen = true) :
    (∃ k, w.workers[i]? = some k ∧ LoopState set c plan source turns k) ∧ ∀ t ∈ turns, t.Does c := by
  induction h with
  | spawned hk => exact ⟨⟨_, hk, .fresh⟩, by simp⟩
  | @turn _ t _ hdue hwork ih =>
    obtain ⟨⟨k, hk, hstands⟩, hdoes⟩ := ih
    have hgo : k.mayContinue t.before.now = true := by simpa [Turn.isDue, hk] using hdue
    obtain ⟨hnext, hturn⟩ := hstands.turn hopen hk hgo hwork
    exact ⟨hnext, by simpa using ⟨hturn, hdoes⟩⟩
  | meanwhile _ hsame ih =>
    rw [hsame]
    exact ih

/-- A turn can be taken when it is due, unless no length is allowed. -/
theorem work_ok (hgo : k.mayContinue w.now = true) (hk : w.workers[i]? = some k)
    (hallows : ∃ n, k.plan.payload.Allows n) : ∃ w', w.work set i = .ok w' := by
  obtain ⟨n, hn⟩ := hallows
  have hproceed : ∀ (w₁ : World) (k₁ : Worker), k₁.plan = k.plan →
      ∃ w', w₁.proceed set i k₁ = .ok w' := by
    intro w₁ k₁ hplan
    rw [← hplan] at hn
    unfold World.proceed
    split
    · split
      · next hnone => exact absurd hnone (PayloadSize.sample_ne_none hn)
      · exact ⟨_, rfl⟩
    · exact ⟨_, rfl⟩
  obtain hstage | ⟨t, e | latency, hstage, -⟩ := mayGo_iff.1 hgo
  · simpa [World.work, hk, hstage] using hproceed w k rfl
  · simp [World.work, hk, hstage]
  · simpa [World.work, hk, hstage] using hproceed (w.echoed i k latency) k.advance rfl

theorem recorded_eq (h : ∀ t ∈ turns, t.Does c) : recorded turns = echoes turns := by
  rw [recorded, echoes, List.filterMap_eq_flatMap_toList]
  apply List.flatMap_congr
  intro t ht
  simp [Turn.recorded, (h t (List.mem_reverse.1 ht)).messages]

theorem sent_eq (h : ∀ t ∈ turns, t.Does c) : sent turns = (errors turns).map (⟨c.id, ·⟩) := by
  rw [sent, errors, List.map_filterMap, List.filterMap_eq_flatMap_toList]
  apply List.flatMap_congr
  intro t ht
  simp [Turn.sent, (h t (List.mem_reverse.1 ht)).failures]

theorem Turn.Does.keeps (h : t.Does c) : t.Keeps := by
  constructor
  · exact h.messages ▸ List.prefix_append _ _
  · exact h.joins
  · exact h.failures ▸ List.prefix_append _ _

theorem LoopState.follows (h : LoopState set c plan source turns k) : k.plan = plan := by
  cases h with
  | fresh => rfl
  | busy htop | failed htop | ended htop => exact htop.follows

/-- A loop keeps to its budget, and comes to its end if it has one. -/
theorem LoopState.within (h : LoopState set c plan source turns k) {n : Nat}
    (hn : plan.rounds = some n) :
    (echoes turns).length ≤ n ∧ turns.length ≤ n + 1 := by
  cases h with
  | fresh => simp [echoes]
  | busy htop _ _ htold | ended htop htold =>
    have := htop.within n hn
    rw [htold.echoes, htold.turns]
    simpa using this
  | failed htop hbudget htold =>
    have := hasBudget_iff.1 hbudget n (htop.follows ▸ hn)
    rw [htold.echoes, htold.turns, List.length_singleton]
    omega

theorem AtTop.counted (h : AtTop c plan source k) :
    ∃ lengths s, plan.payload.drawn source k.completed = some (lengths, s) ∧
      lengths.length = k.completed ∧ (∀ n ∈ lengths, plan.payload.Allows n) ∧
        k.client.bytesSent = c.bytesSent + (lengths.map (4 + ·)).sum := by
  obtain ⟨lengths, hdrawn, hbytes⟩ := h.bytes
  obtain ⟨hlength, hallows⟩ := PayloadSize.drawn_allows hdrawn
  exact ⟨lengths, _, hdrawn, hlength, hallows, hbytes⟩

theorem LoopState.done (h : LoopState set c plan source turns k) (hdone : k.stage = .done) :
    k.client.id = c.id ∧ k.client.rounds = c.rounds + (echoes turns).length ∧
      (∃ lengths s, plan.payload.drawn source (echoes turns).length = some (lengths, s) ∧
        lengths.length = (echoes turns).length ∧ (∀ n ∈ lengths, plan.payload.Allows n) ∧
          k.client.bytesSent = c.bytesSent + (lengths.map (4 + ·)).sum) ∧
      ((∃ e, errors turns = [e] ∧ k.client.state = .failed) ∨
        errors turns = [] ∧ k.client.isOpen = true ∧ ∃ last ∈ turns.head?,
          last.before.active = false ∨
            last.before.active = true ∧ plan.rounds = some (echoes turns).length) := by
  cases h with
  | fresh | busy => simp [inRound] at hdone
  | @failed _ k s e htop hbudget htold =>
    rw [htold.echoes]
    exact ⟨htop.id, htop.rounds, htop.counted, .inl ⟨e, htold.errors, rfl⟩⟩
  | ended htop htold hwhy =>
    rw [htold.echoes]
    exact ⟨htop.id, htop.rounds, htop.counted, .inr ⟨htold.errors, htop.isOpen, _, rfl, hwhy⟩⟩

/-! ## Loops in a run -/

theorem work_elsewhere {j : Nat} (hne : j ≠ i) (h : w.work set j = .ok w') :
    w'.workers[i]? = w.workers[i]? := by
  have hproceed : ∀ (w₁ : World) (k : Worker), w₁.proceed set j k = .ok w' →
      w'.workers[i]? = w₁.workers[i]? := by
    intro w₁ k h
    unfold World.proceed at h
    split at h
    · split at h <;> cases h
      exact List.getElem?_set_ne hne
    · cases h
      exact List.getElem?_set_ne hne
  unfold World.work at h
  split at h
  · cases h
    rfl
  · split at h
    · exact hproceed _ _ h
    · exact (hproceed _ _ h).trans (List.getElem?_set_ne hne)
    · cases h
      exact List.getElem?_set_ne hne
    · cases h
      rfl

/-- **A run is made of such turns.** Each step is a turn of the loop, or brings its client back when
the loop has ended, or leaves the loop alone. -/
theorem History.step {q : Waiting} {b : Option Wakeup} (h : History set c plan source turns w i)
    (hstep : w.step set q = .ok (w', b)) :
    (∃ t, History set c plan source (t :: turns) w' i) ∨
      (∃ k, w.workers[i]? = some k ∧ k.stage = .done ∧ b = some (.joined k.client)) ∨
      ∃ i', History set c plan source turns w' i' := by
  unfold World.step at hstep
  split at hstep
  · cases hstep
  next τ m hchoose =>
  obtain ⟨-, τ', hτ, hdue⟩ := World.choose_due hchoose
  have htick : History set c plan source turns (w.tick τ) i := h.meanwhile rfl
  have alone : ∀ i', w'.workers[i']? = (w.tick τ).workers[i]? →
      ∃ i', History set c plan source turns w' i' := fun i' hsame => ⟨i', htick.meanwhile hsame⟩
  cases m with
  | signal =>
    cases hstep
    obtain ⟨s, rest, hs⟩ := hdue
    refine .inr (.inr (alone i ?_))
    rw [World.interrupted_eq (w := w.tick τ) hs]
  | dial n =>
    cases hstep
    refine .inr (.inr (alone i ?_))
    unfold World.resolve
    split <;> rfl
  | work j =>
    obtain ⟨w₁, hwork, he⟩ := map_eq_ok.1 hstep
    cases he
    by_cases hj : j = i
    · subst hj
      obtain ⟨k, hk, hstage⟩ := hdue
      have hgo : k.mayContinue τ = true :=
        mayGo_iff.2 (hstage.imp_right fun ⟨result, hbusy⟩ => ⟨τ', result, hbusy, hτ⟩)
      have hdue : (⟨w.tick τ, j, w'⟩ : Turn).isDue = true := by
        simpa [Turn.isDue, World.tick, hk] using hgo
      exact .inl ⟨_, htick.turn hdue hwork⟩
    · exact .inr (.inr (alone i (work_elsewhere hj hwork)))
  | join j =>
    obtain ⟨k, hk, hdone, -⟩ := hdue
    have hk' : (w.tick τ).workers[j]? = some k := hk
    simp only [World.apply, hk'] at hstep
    cases hstep
    obtain hlt | rfl | hgt := Nat.lt_trichotomy i j
    · refine .inr (.inr (alone i ?_))
      simp [List.getElem?_eraseIdx, hlt]
    · exact .inr (.inl ⟨k, hk, hdone, rfl⟩)
    · refine .inr (.inr (alone (i - 1) ?_))
      have hpred : i - 1 + 1 = i := by omega
      have hnot : ¬i - 1 < j := by omega
      simp [List.getElem?_eraseIdx, hnot, hpred]
  | mail =>
    refine .inr (.inr (alone i ?_))
    simp only [World.apply] at hstep
    split at hstep <;> cases hstep <;> rfl
  | alarm | ended =>
    cases hstep
    exact .inr (.inr (alone i rfl))

/-- **What an echo loop does.** It is spawned for an open client, and then takes its turns, whatever
policy and budget it has, wherever its random choices come from, and whatever becomes of the flag and
of the network in between. For every round that is echoed it records one sample, and for every round
that fails it sends one failure that names the client; it starts rounds only while the flag is set, and
no more than its budget allows. At its end the client has counted the rounds echoed and the bytes of
their frames. Then it has sent the one failure of a round, and the client has failed; or it has sent
none, the client is open, and at its last turn the flag was clear or the budget was spent. -/
theorem loop_contract (h : History set c plan source turns w i) (hopen : c.isOpen = true) :
    let r := (echoes turns).length
    recorded turns = echoes turns ∧ sent turns = (errors turns).map (⟨c.id, ·⟩) ∧
    (∀ t ∈ turns, t.Keeps ∧ (t.starts = true → t.before.active = true)) ∧
    (∀ n, plan.rounds = some n → r ≤ n ∧ turns.length ≤ n + 1) ∧
    ∃ k, w.workers[i]? = some k ∧
      ((∃ n, plan.payload.Allows n) → k.mayContinue w.now = true → ∃ w', w.work set i = .ok w') ∧
      (k.stage = .done →
        k.client.id = c.id ∧ k.client.rounds = c.rounds + r ∧
        (∃ lengths s, plan.payload.drawn source r = some (lengths, s) ∧ lengths.length = r ∧
          (∀ n ∈ lengths, plan.payload.Allows n) ∧
            k.client.bytesSent = c.bytesSent + (lengths.map (4 + ·)).sum) ∧
        ((∃ e, sent turns = [⟨c.id, e⟩] ∧ errors turns = [e] ∧ k.client.state = .failed) ∨
          sent turns = [] ∧ errors turns = [] ∧ k.client.isOpen = true ∧ ∃ last ∈ turns.head?,
            last.before.active = false ∨ last.before.active = true ∧ plan.rounds = some r) ∧
        ((∀ t ∈ turns, t.before.active = true) → errors turns = [] → plan.rounds = some r)) := by
  obtain ⟨⟨k, hk, hstands⟩, hdoes⟩ := h.loopState hopen
  have hsent := sent_eq hdoes
  refine ⟨recorded_eq hdoes, hsent, fun t ht => ⟨(hdoes t ht).keeps, (hdoes t ht).starts⟩,
    fun n => hstands.within, k, hk, fun hallows hgo => work_ok hgo hk ?_, fun hdone => ?_⟩
  · rwa [hstands.follows]
  · obtain ⟨hid, hrounds, hbytes, hend⟩ := hstands.done hdone
    refine ⟨hid, hrounds, hbytes, ?_, fun hset hclean => ?_⟩
    · apply hend.imp
      · rintro ⟨e, herrors, hfailed⟩
        exact ⟨e, by rw [hsent, herrors, List.map_singleton], herrors, hfailed⟩
      · rintro ⟨herrors, hlast⟩
        exact ⟨by rw [hsent, herrors, List.map_nil], herrors, hlast⟩
    · obtain ⟨e, herrors, -⟩ | ⟨-, -, last, hlast, hclear | ⟨-, hspent⟩⟩ := hend
      · exact absurd (herrors.symm.trans hclean) (by simp)
      · have hactive := hset last (List.mem_of_mem_head? hlast)
        exact absurd (hclear.symm.trans hactive) Bool.noConfusion
      · exact hspent

/-- The first round is echoed, and by the time of the second the peer hangs up. -/
theorem loop_contract_broken :
    let set : Setting := { source := SplitMix.source #[] 0 }
    let c : Client := { id := 3, state := .active, stream := some 0, bytesSent := 40, rounds := 5 }
    let conn : Connection := { peer := { replies := [.echo, .hangup] }, fate := .open }
    let w : World := { active := true, network := { connections := [conn] } }
    let turn (w : World) : Turn := ⟨w, 0, (w.work set 0).toOption.getD w⟩
    let first := turn (w.spawn set { payload := .fixed 0 } c)
    let second := turn (first.after.tick 1000000)
    let third := turn (second.after.tick 2000000)
    sent [third, second, first] = [⟨3, .protocol (.truncated 4 0)⟩] ∧
      recorded [third, second, first] = [1000000] ∧
      ∃ k, third.after.workers[0]? = some k ∧ k.client.state = .failed ∧
        k.client.rounds = 6 ∧ k.client.bytesSent = 44 := by
  intro set c conn w turn first second third
  have hturn : ∀ w : World, (w.work set 0).toOption.isSome = true →
      w.work set 0 = .ok (turn w).after := by
    intro w hok
    dsimp only [turn]
    cases h : w.work set 0 with
    | ok w' => rfl
    | error stop => simp [h, Except.toOption] at hok
  have h : History set c { payload := .fixed 0 } set.source [third, second, first] third.after 0 := by
    apply History.turn
    · apply History.meanwhile (i := 0)
      · apply History.turn
        · apply History.meanwhile (i := 0)
          · apply History.turn (t := first)
            · exact .spawned rfl
            · decide +kernel
            · exact hturn _ (by decide +kernel)
          · rfl
        · decide +kernel
        · exact hturn _ (by decide +kernel)
      · rfl
    · decide +kernel
    · exact hturn _ (by decide +kernel)
  obtain ⟨hrecorded, hsent, -, -, k, hk, -, hdone⟩ := loop_contract h rfl
  have hechoes : echoes [third, second, first] = [1000000] := by decide +kernel
  have herrors : errors [third, second, first] = [.protocol (.truncated 4 0)] := by decide +kernel
  have hover : (third.after.workers[0]?.any fun k => !k.mayContinue 0) = true := by decide +kernel
  have hout : third.starts = false := by decide +kernel
  rw [hk] at hover
  rw [Turn.starts, show third.after.workers[third.place]? = some k from hk] at hout
  have hstage : k.stage = .done := by
    cases hs : k.stage with
    | ready => simp [mayContinue, hs] at hover
    | busy ending => simp [hs] at hout
    | done => rfl
  obtain ⟨-, hrounds, ⟨lengths, s, hdrawn, -, -, hbytes⟩, hend, -⟩ := hdone hstage
  rw [hechoes] at hrounds hdrawn
  rw [hsent, herrors, hrecorded, hechoes]
  refine ⟨rfl, rfl, k, hk, ?_, hrounds, ?_⟩
  · obtain ⟨e, -, -, hfailed⟩ | ⟨-, hclean, -⟩ := hend
    · exact hfailed
    · exact absurd (herrors.symm.trans hclean) (by simp)
  · cases hdrawn
    exact hbytes

end Worker

end EchoLoad
