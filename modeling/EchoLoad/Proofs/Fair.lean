import EchoLoad.Proofs.Faithful
import EchoLoad.Proofs.Ledger
import Mathlib.Data.List.Perm.Basic
/-!
A fair world: nothing interrupts the run, every attempt will end, and every round is echoed. It
stays fair whatever happens in it, and each thing that happens is a turn of one loop or the end of
one attempt. Main statements: `Fair.internalStep` and `Fair.dial`.
-/

namespace EchoLoad

inductive Worker.Turns (active : Bool) (now : Duration) (k : Worker) : Worker → Prop
  | echoed {t latency : Duration} : k.stage = .busy (some (t, .ok latency)) → t ≤ now →
      Turns active now k k.advance
  | started {k' : Worker} {t latency : Duration} : k.stage = .ready → active = true →
      k.hasBudget = true → k'.plan = k.plan → k'.completed = k.completed →
      k'.stage = .busy (some (t, .ok latency)) → now < t → Turns active now k k'
  | retired : k.stage = .ready → (active && k.hasBudget) = false →
      Turns active now k { k with stage := .done }

namespace World

/-- One turn of a loop, or one attempt less. -/
inductive Turns (w w' : World) : Prop
  | attempt : w'.workers = w.workers → w'.dials.length < w.dials.length → w'.dials ⊆ w.dials →
      Turns w w'
  | loop {i : Nat} {k k' : Worker} : w.workers[i]? = some k → w'.workers = w.workers.set i k' →
      w'.dials = w.dials → k.Turns w.active w.now k' → Turns w w'

/-- An attempt in flight will end, and succeed if the peer accepts. -/
inductive WillEnd (o : ClientOptions) (p : Peer) : Ending → Prop
  | ok {t latency : Duration} : p.accepts o = true → WillEnd o p (some (t, .ok latency))
  | error {t : Duration} {e : ClientError} : p.accepts o = false →
      WillEnd o p (some (t, .error e))

/-- From the instant `t` on client `n` is idle: its attempt or its round under way ends then. -/
inductive IdleFrom (w : World) (n : Nat) (t : Duration) : Prop
  | now : t ≤ w.now → IdleFrom w n t
  | dial {d : Dial} {r : Except ClientError Duration} : d ∈ w.dials → d.id = n →
      d.ending = some (t, r) → IdleFrom w n t
  | round {k : Worker} {r : Except ClientError Duration} : k ∈ w.workers → k.id = n →
      k.stage = .busy (some (t, r)) → IdleFrom w n t

structure Fair (o : ClientOptions) (size : PayloadSize) (peer : Nat → Peer) (w : World) :
    Prop where
  peers : w.network.peer = peer
  signals : w.signals = []
  stopped : w.stopped = false
  clean : w.failedRounds = []
  plans : ∀ k ∈ w.workers, k.plan.payload = size
  rounds : ∀ k ∈ w.workers, ∀ ending, k.stage = .busy ending →
    ∃ t latency, ending = some (t, .ok latency)
  dials : ∀ d ∈ w.dials, WillEnd o (peer d.id) d.ending
  resolved : ∀ n failure, .resolved n failure ∈ w.events →
    (failure = none ↔ (peer n).accepts o = true)
  /-- An open connection is faithful from the instant on at which its client is idle. -/
  faithful : ∀ n conn, w.network.connections[n]? = some conn → conn.fate = .open →
    ∃ t, conn.Faithful o size t ∧ w.IdleFrom n t

end World

theorem Client.echoRound_echoed {o : ClientOptions} {c : Client} {now t latency : Duration}
    {payload : Bytes} {net : Network} {conn : Connection} (hc : c.Holds conn)
    (hn : net.connections[c.id]? = some conn)
    (he : (conn.exchange now o.ioTimeout payload).2 = some (t, .ok latency)) :
    (c.echoRound o now payload net).network =
        net.modify c.id (fun _ => (conn.exchange now o.ioTimeout payload).1) ∧
      (c.echoRound o now payload net).ending = some (t, .ok latency) := by
  rcases hex : conn.exchange now o.ioTimeout payload with ⟨conn', ending⟩
  rw [hex] at he
  subst he
  constructor <;>
    simp only [echoRound, exchange, hc.isOpen, hc.stream, if_true, Option.bind_some, hn,
      Option.map_some, hex]

theorem mem_eraseIdx_or_eq {α : Type} {l : List α} {i : Nat} {x y : α} (hx : l[i]? = some x)
    (hy : y ∈ l) : y ∈ l.eraseIdx i ∨ y = x := by
  obtain ⟨hi, rfl⟩ := List.getElem?_eq_some_iff.1 hx
  rw [← (List.getElem_cons_eraseIdx_perm hi).mem_iff, List.mem_cons] at hy
  exact hy.symm

theorem mem_set_or_eq {α : Type} {l : List α} {i : Nat} {x y : α} (z : α) (hx : l[i]? = some x)
    (hy : y ∈ l) : y ∈ l.set i z ∨ y = x := by
  obtain ⟨hi, -⟩ := List.getElem?_eq_some_iff.1 hx
  rw [(List.set_perm_cons_eraseIdx hi z).mem_iff, List.mem_cons]
  exact (mem_eraseIdx_or_eq hx hy).imp_left .inr

theorem World.IdleFrom.congr {w w' : World} {n : Nat} {t : Duration} (h : w.IdleFrom n t)
    (hnow : w.now ≤ w'.now)
    (hdials : ∀ d ∈ w.dials, d ∈ w'.dials ∨ ∀ t r, d.ending = some (t, r) → t ≤ w'.now)
    (hworkers : ∀ k ∈ w.workers,
      k ∈ w'.workers ∨ ∀ t r, k.stage = .busy (some (t, r)) → t ≤ w'.now) : w'.IdleFrom n t := by
  cases h with
  | now hle => exact .now (Nat.le_trans hle hnow)
  | dial hd hid he =>
    rcases hdials _ hd with hd | hended
    · exact .dial hd hid he
    · exact .now (hended _ _ he)
  | round hk hid hs =>
    rcases hworkers _ hk with hk | hended
    · exact .round hk hid hs
    · exact .now (hended _ _ hs)

namespace World.Fair

variable {o : ClientOptions} {size : PayloadSize} {peer : Nat → Peer} {set : Setting}
  {held : List Client} {w w' : World}

theorem exists_ending (h : w.Fair o size peer) {d : Dial} (hd : d ∈ w.dials) :
    ∃ t r, d.ending = some (t, r) := by
  have hfore := h.dials d hd
  rcases he : d.ending with _ | ⟨t, r⟩
  · rw [he] at hfore
    cases hfore
  · exact ⟨t, r, rfl⟩

theorem tick (h : w.Fair o size peer) {t : Duration} (ht : w.now ≤ t) :
    (w.tick t).Fair o size peer where
  peers := h.peers
  signals := h.signals
  stopped := h.stopped
  clean := h.clean
  plans := h.plans
  rounds := h.rounds
  dials := h.dials
  resolved := h.resolved
  faithful n conn hn hf := by
    obtain ⟨since, hfaithful, hidle⟩ := h.faithful n conn hn hf
    exact ⟨since, hfaithful, hidle.congr ht (fun _ hd => .inl hd) fun _ hk => .inl hk⟩

/-- Nothing that fairness is about has changed, except that loops may be gone that had ended. -/
theorem of_same (h : w.Fair o size peer) (hnet : w'.network = w.network)
    (hsignals : w'.signals = w.signals) (hstopped : w'.stopped = w.stopped)
    (hjournal : w'.journal = w.journal) (hnow : w'.now = w.now) (hdials : w'.dials = w.dials)
    (hworkers : w'.workers ⊆ w.workers)
    (hgone : ∀ k ∈ w.workers, k ∈ w'.workers ∨ k.stage = .done) : w'.Fair o size peer where
  peers := by rw [hnet]; exact h.peers
  signals := hsignals.trans h.signals
  stopped := hstopped.trans h.stopped
  clean := (failedRounds_congr (by rw [events, hjournal, events])).trans h.clean
  plans k hk := h.plans k (hworkers hk)
  rounds k hk := h.rounds k (hworkers hk)
  dials := hdials ▸ h.dials
  resolved n failure hr := h.resolved n failure (by rwa [events, hjournal] at hr)
  faithful n conn hn hf := by
    rw [hnet] at hn
    obtain ⟨since, hfaithful, hidle⟩ := h.faithful n conn hn hf
    refine ⟨since, hfaithful, hidle.congr (Nat.le_of_eq hnow.symm) (fun d hd => ?_) fun k hk => ?_⟩
    · rw [hdials]
      exact .inl hd
    · refine (hgone k hk).imp_right fun hs t r hb => ?_
      rw [hs] at hb
      cases hb

theorem faithful_set (h : w.Fair o size peer) {i n : Nat} {k k' : Worker} {conn : Connection}
    (hk : w.workers[i]? = some k) (hended : ∀ t r, k.stage = .busy (some (t, r)) → t ≤ w.now)
    (hnow : w'.now = w.now) (hdials : w'.dials = w.dials)
    (hworkers : w'.workers = w.workers.set i k') (hn : w.network.connections[n]? = some conn)
    (hf : conn.fate = .open) : ∃ t, conn.Faithful o size t ∧ w'.IdleFrom n t := by
  obtain ⟨since, hfaithful, hidle⟩ := h.faithful n conn hn hf
  refine ⟨since, hfaithful, hidle.congr (Nat.le_of_eq hnow.symm) (fun d hd => ?_) fun x hx => ?_⟩
  · rw [hdials]
    exact .inl hd
  · rw [hworkers, hnow]
    refine (mem_set_or_eq k' hk hx).imp_right fun heq => ?_
    rw [heq]
    exact hended

theorem set_worker (h : w.Fair o size peer) {i : Nat} {k : Worker} (k' : Worker) (es : List Event)
    (hk : w.workers[i]? = some k) (hplan : k'.plan = k.plan)
    (hstage : ∀ ending, k'.stage = .busy ending → ∃ t latency, ending = some (t, .ok latency))
    (hworkers : w'.workers = w.workers.set i k') (hevents : w'.events = es ++ w.events)
    (hes : ∀ e ∈ es, (∀ n failure, e ≠ .resolved n failure) ∧ e.failedRound? = none)
    (hpeers : w'.network.peer = w.network.peer)
    (hsignals : w'.signals = w.signals) (hstopped : w'.stopped = w.stopped)
    (hdials : w'.dials = w.dials)
    (hfaithful : ∀ n conn, w'.network.connections[n]? = some conn → conn.fate = .open →
      ∃ t, conn.Faithful o size t ∧ w'.IdleFrom n t) : w'.Fair o size peer := by
  have hmem : ∀ x ∈ w'.workers, x ∈ w.workers ∨ x = k' := by
    rw [hworkers]
    exact fun x hx => List.mem_or_eq_of_mem_set hx
  have hold : k ∈ w.workers := List.mem_of_getElem? hk
  refine ⟨hpeers.trans h.peers, hsignals.trans h.signals, hstopped.trans h.stopped, ?_, ?_, ?_,
    hdials ▸ h.dials, ?_, hfaithful⟩
  · have hclean := h.clean
    simp only [failedRounds, hevents, List.reverse_append, List.filterMap_append] at hclean ⊢
    rw [hclean, List.nil_append, List.filterMap_eq_nil_iff]
    exact fun e he => (hes e (List.mem_reverse.1 he)).2
  · intro x hx
    rcases hmem x hx with hx | rfl
    · exact h.plans x hx
    · rw [hplan]
      exact h.plans k hold
  · intro x hx
    rcases hmem x hx with hx | rfl
    · exact h.rounds x hx
    · exact hstage
  · intro n failure hr
    rw [hevents] at hr
    rcases List.mem_append.1 hr with hr | hr
    · exact ((hes _ hr).1 n failure rfl).elim
    · exact h.resolved n failure hr

theorem resolve_dial (h : w.Fair o size peer) {i : Nat} {c : Client} {t : Duration}
    {r : Except ClientError Duration} {failure : Option ClientError}
    (hd : w.dials[i]? = some ⟨c, some (t, r)⟩) (ht : t ≤ w.now)
    (hfailure : failure = none ↔ (peer c.id).accepts o = true)
    (hworkers : w'.workers = w.workers) (hevents : w'.events = .resolved c.id failure :: w.events)
    (hnow : w'.now = w.now) (hnet : w'.network = w.network) (hsignals : w'.signals = w.signals)
    (hstopped : w'.stopped = w.stopped) (hdials : w'.dials = w.dials.eraseIdx i) :
    w'.Fair o size peer where
  peers := by rw [hnet]; exact h.peers
  signals := hsignals.trans h.signals
  stopped := hstopped.trans h.stopped
  clean := by rw [failedRounds_cons hevents, h.clean]; rfl
  plans := hworkers ▸ h.plans
  rounds := hworkers ▸ h.rounds
  dials d hm := by
    rw [hdials] at hm
    exact h.dials d (List.eraseIdx_subset hm)
  resolved n e hr := by
    rw [hevents] at hr
    rcases List.mem_cons.1 hr with hr | hr
    · cases hr
      exact hfailure
    · exact h.resolved n e hr
  faithful n conn hn hf := by
    rw [hnet] at hn
    obtain ⟨since, hfaithful, hidle⟩ := h.faithful n conn hn hf
    refine ⟨since, hfaithful, hidle.congr (Nat.le_of_eq hnow.symm) (fun d hm => ?_) fun k hk => ?_⟩
    · rw [hdials, hnow]
      refine (mem_eraseIdx_or_eq hd hm).imp_right fun heq t' r' he => ?_
      rw [heq] at he
      cases he
      exact ht
    · rw [hworkers]
      exact .inl hk

theorem start (h : w.Fair set.options size peer) (hc : Custody set.options held w) {i : Nat}
    {k : Worker} (hk : w.workers[i]? = some k) (hs : k.stage = .ready) (payload : Bytes)
    (hp : size.Allows payload.length) (source : Source) :
    (∃ t latency, (k.client.echoRound set.options w.now payload w.network).ending =
      some (t, .ok latency) ∧ w.now < t) ∧
      (w.startRound set i k payload source).Fair set.options size peer := by
  obtain ⟨conn, es, hv, hwk⟩ := hc.at_worker hk
  have hhold := (hwk.of_ready hs).1
  have hn : w.network.connections[k.client.id]? = some conn := congrArg View.connection hv
  have hdials : fiber Dial.id k.id w.dials = [] := congrArg View.dials hv
  have hworkers : fiber Worker.id k.id w.workers = [k] := congrArg View.workers hv
  obtain ⟨since, hfaithful, hidle⟩ := h.faithful _ conn hn hhold.fate
  have hsince : since ≤ w.now := by
    cases hidle with
    | now hle => exact hle
    | dial hm hid =>
      have hmem := mem_fiber_self Dial.id hm
      rw [hid, show k.client.id = k.id from rfl, hdials] at hmem
      cases hmem
    | round hm hid hb =>
      have hmem := mem_fiber_self Worker.id hm
      rw [hid, show k.client.id = k.id from rfl, hworkers] at hmem
      rw [List.mem_singleton.1 hmem, hs] at hb
      cases hb
  obtain ⟨conn', t, latency, hex, hlt, hfaithful'⟩ := hfaithful.round hsince hp
  obtain ⟨hnet, hending⟩ := Client.echoRound_echoed hhold hn (by rw [hex])
  rw [hex] at hnet
  refine ⟨⟨t, latency, hending, hlt⟩, ?_⟩
  let call := k.client.echoRound set.options w.now payload w.network
  let k' : Worker := { k with client := call.client, source, stage := .busy call.ending }
  obtain ⟨-, -, -, hid', -⟩ := k.client.echoRound_open set.options w.now payload w.network conn
    hhold hn
  obtain ⟨hi, -⟩ := List.getElem?_eq_some_iff.1 hk
  refine h.set_worker k' [.roundStarted k.client.id] hk rfl ?_ rfl rfl
    (by simp [Event.failedRound?]) ?_ rfl rfl rfl ?_
  · intro ending hb
    cases hb
    exact ⟨t, latency, hending⟩
  · rw [startRound]
    dsimp only
    rw [hnet]
    rfl
  · intro n conn'' hn' hf'
    rw [startRound] at hn'
    dsimp only at hn'
    rw [hnet] at hn'
    by_cases hid : k.client.id = n
    · subst hid
      simp only [Network.modify, List.getElem?_modify_eq, hn, Option.map_eq_map, Option.map_some,
        Option.some.injEq] at hn'
      subst hn'
      exact ⟨t, hfaithful', .round (List.mem_set hi k') hid' (congrArg Stage.busy hending)⟩
    · rw [Network.modify, List.getElem?_modify_ne _ _ hid] at hn'
      refine h.faithful_set hk (fun t r hb => ?_) rfl rfl rfl hn' hf'
      rw [hs] at hb
      cases hb

/-- **A fair world stays fair**, and makes a turn with each thing that happens. -/
theorem internalStep (h : w.Fair set.options size peer) (hc : Custody set.options held w)
    (hs : InternalStep set w w') :
    w'.Fair set.options size peer ∧ w'.now = w.now ∧ w'.active = w.active ∧ w.Turns w' := by
  cases hs with
  | signal hsig => rw [h.signals] at hsig; cases hsig
  | @arrived i c t latency hd ht =>
    have hfore := h.dials _ (List.mem_of_getElem? hd)
    have haccepts : (peer c.id).accepts set.options = true := by
      cases hfore with
      | ok ha => exact ha
    refine ⟨h.resolve_dial hd ht (iff_of_true rfl haccepts) rfl rfl rfl rfl rfl rfl rfl, rfl, rfl,
      .attempt rfl ?_ (List.eraseIdx_subset)⟩
    obtain ⟨hi, -⟩ := List.getElem?_eq_some_iff.1 hd
    simp only [World.arrived, note, List.length_eraseIdx, hi, if_true]
    omega
  | @declined i c t e hd ht =>
    have hfore := h.dials _ (List.mem_of_getElem? hd)
    have haccepts : (peer c.id).accepts set.options = false := by
      cases hfore with
      | error ha => exact ha
    refine ⟨h.resolve_dial hd ht (by simp [haccepts]) rfl rfl rfl rfl rfl rfl rfl, rfl, rfl,
      .attempt rfl ?_ (List.eraseIdx_subset)⟩
    obtain ⟨hi, -⟩ := List.getElem?_eq_some_iff.1 hd
    simp only [World.declined, note, List.length_eraseIdx, hi, if_true]
    omega
  | @echoed i k t latency hk hst ht =>
    refine ⟨h.set_worker k.advance [.roundEnded k.client.id none] hk rfl
      (fun _ hb => by cases hb) rfl rfl (by simp [Event.failedRound?]) rfl rfl rfl rfl ?_, rfl, rfl,
      .loop hk rfl rfl (.echoed hst ht)⟩
    intro n conn hn hf
    refine h.faithful_set hk (fun t' r hb => ?_) rfl rfl rfl hn hf
    rw [hst] at hb
    cases hb
    exact ht
  | @broken i k t e hk hst =>
    obtain ⟨t', latency, he⟩ := h.rounds k (List.mem_of_getElem? hk) _ hst
    cases he
  | @start i length k source hk hst ha hb hp =>
    have hsize : size.Allows length :=
      h.plans k (List.mem_of_getElem? hk) ▸ PayloadSize.sample_allows hp
    obtain ⟨⟨t, latency, hending, hlt⟩, hfair⟩ := h.start hc hk hst
      (Payload.fill length source).1 (by rwa [Payload.fill_length]) (Payload.fill length source).2
    exact ⟨hfair, rfl, rfl, .loop hk rfl rfl (.started hst ha hb rfl rfl
      (congrArg Stage.busy hending) hlt)⟩
  | @retire i k hk hst hb =>
    refine ⟨h.set_worker { k with stage := .done } [] hk rfl (fun _ hb => by cases hb) rfl rfl
      (by simp) rfl rfl rfl rfl ?_, rfl, rfl, .loop hk rfl rfl (.retired hst hb)⟩
    intro n conn hn hf
    refine h.faithful_set hk (fun t' r hb => ?_) rfl rfl rfl hn hf
    rw [hst] at hb
    cases hb

/-! ## What the controller does -/

theorem spawn {plan : EchoPlan} {c : Client} (h : w.Fair o size peer)
    (hplan : plan.payload = size) : (w.spawn set plan c).Fair o size peer where
  peers := h.peers
  signals := h.signals
  stopped := h.stopped
  clean := h.clean
  plans k hk := by
    rcases List.mem_append.1 hk with hk | hk
    · exact h.plans k hk
    · rw [List.mem_singleton.1 hk]
      exact hplan
  rounds k hk ending hb := by
    rcases List.mem_append.1 hk with hk | hk
    · exact h.rounds k hk ending hb
    · rw [List.mem_singleton.1 hk] at hb
      cases hb
  dials := h.dials
  resolved := h.resolved
  faithful n conn hn hf := by
    obtain ⟨since, hfaithful, hidle⟩ := h.faithful n conn hn hf
    exact ⟨since, hfaithful, hidle.congr (Nat.le_refl _) (fun _ hd => .inl hd) fun _ hk =>
      .inl (List.mem_append_left _ hk)⟩

theorem join (h : w.Fair o size peer) {i : Nat} {k : Worker} (hk : w.workers[i]? = some k)
    (hs : k.stage = .done) :
    ({ w with workers := w.workers.eraseIdx i } : World).Fair o size peer := by
  refine h.of_same rfl rfl rfl rfl rfl rfl List.eraseIdx_subset fun x hx => ?_
  refine (mem_eraseIdx_or_eq hk hx).imp_right fun heq => ?_
  rw [heq, hs]

theorem cancel (h : w.Fair o size peer) : w.cancel.Fair o size peer :=
  h.of_same rfl rfl rfl rfl rfl rfl (List.Subset.refl _) fun _ hk => .inl hk

theorem handOver (h : w.Fair o size peer) : w.handOver.1.Fair o size peer :=
  h.of_same rfl rfl rfl rfl rfl rfl (List.Subset.refl _) fun _ hk => .inl hk

theorem of_fresh (h : w.Fresh) (hsignals : w.signals = []) (hstopped : w.stopped = false) :
    w.activate.Fair o size w.network.peer where
  peers := rfl
  signals := hsignals
  stopped := hstopped
  clean := by simp [failedRounds, events, activate, h.journal]
  plans := by simp [activate, h.workers]
  rounds := by simp [activate, h.workers]
  dials := by simp [activate, h.dials]
  resolved := by simp [events, activate, h.journal]
  faithful := by simp [activate, h.connections]

/-- **An attempt is begun.** -/
theorem dial (hpeers : Dependable set.options size peer) (h : w.Fair set.options size peer) :
    (w.dial set w.network.connections.length).Fair set.options size peer := by
  obtain ⟨conn, hnet, -, hid, hleaves⟩ := Client.connect_new set.options w.now w.network
  obtain ⟨first, hfirst, hnet', hending⟩ := Client.connect_later set.options w.now w.network
    (congrFun h.peers w.network.connections.length)
  have hconn : conn = first.later w.now := by
    have hsame := congrArg Network.connections (hnet.symm.trans hnet')
    simpa [Network.attempt] using hsame
  let call := ({ id := w.network.connections.length } : Client).connect set.options w.now w.network
  let d : Dial := ⟨call.client, call.ending⟩
  have hd : d.id = w.network.connections.length := hid
  obtain ⟨⟨t, r⟩, hr⟩ := Option.ne_none_iff_exists'.1 (hpeers.ends w.network.connections.length)
  have hcall : call.ending = some (t + w.now, r) := by
    rw [hending, hr]
    rfl
  have hfore : WillEnd set.options (peer d.id) d.ending := by
    rw [show d.ending = _ from hcall, hd]
    cases r with
    | ok latency => exact .ok (by rw [Peer.accepts, hr])
    | error e => exact .error (by rw [Peer.accepts, hr])
  refine ⟨?_, h.signals, h.stopped, ?_, h.plans, h.rounds, ?_, ?_, ?_⟩
  · rw [← h.peers, World.dial]
    dsimp only
    rw [hnet]
    rfl
  · rw [failedRounds_cons (e := .attempt w.network.connections.length) rfl, h.clean]
    rfl
  · intro x hx
    rcases List.mem_append.1 hx with hx | hx
    · exact h.dials x hx
    · rw [List.mem_singleton.1 hx]
      exact hfore
  · intro n failure hn
    rcases List.mem_cons.1 hn with hn | hn
    · cases hn
    · exact h.resolved n failure hn
  · intro n c hn hf
    rw [World.dial] at hn
    dsimp only at hn
    rw [hnet, Network.attempt, List.getElem?_append] at hn
    split at hn
    · obtain ⟨since, hfaithful, hidle⟩ := h.faithful n c hn hf
      exact ⟨since, hfaithful, hidle.congr (Nat.le_refl _)
        (fun _ hd => .inl (List.mem_append_left _ hd)) fun _ hk => .inl hk⟩
    · next hge =>
      obtain ⟨rfl, hlast⟩ : c = conn ∧ n = w.network.connections.length := by
        rw [List.getElem?_singleton] at hn
        split at hn
        · exact ⟨by simpa using hn.symm, by omega⟩
        · cases hn
      cases r with
      | error e =>
        have hdeclined : Client.Declined set.options c e := by
          rw [show call.ending = _ from hcall] at hleaves
          exact hleaves
        cases hdeclined <;> simp_all
      | ok latency =>
        refine ⟨t + w.now, ?_, .dial (List.mem_append_right _ List.mem_cons_self)
          (hd.trans hlast.symm) hcall⟩
        rw [hconn]
        exact (hpeers.faithful _ t latency hr first (by rw [hfirst]; simp)).later

end World.Fair

end EchoLoad
