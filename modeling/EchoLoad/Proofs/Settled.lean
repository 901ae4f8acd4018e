import EchoLoad.Proofs.Pool
/-!
What the books say when a run is over. Either no client is in anyone's hands, and each one was
closed once, or failed a round, or never connected; or those in hand were given up. Main
statements: `Settled.gone` for one client, `Settled.count` for all of them, and `Abandoned.gone`
for a client that was given up.
-/

namespace EchoLoad

/-! ## The events of a client that has connected -/

theorem mem_lived_resolved (n rounds : Nat) : .resolved n none ∈ lived n rounds := by
  induction rounds with
  | zero => simp [lived]
  | succ rounds ih => simp [lived, ih]

theorem not_mem_lived_failed (n rounds : Nat) (e : ClientError) :
    .roundEnded n (some e) ∉ lived n rounds := by
  induction rounds with
  | zero => simp [lived]
  | succ rounds ih => simp [lived, ih]

theorem count_lived_closed (n rounds : Nat) : (lived n rounds).count (.closed n) = 0 := by
  induction rounds with
  | zero => simp [lived]
  | succ rounds ih => simp [lived, ih]

theorem countP_lived_isJoin (n rounds : Nat) : (lived n rounds).countP Event.isJoin = 1 := by
  induction rounds with
  | zero => rfl
  | succ rounds ih => simp [lived, ih, Event.isJoin]

theorem countP_lived_isClosing (n rounds : Nat) :
    (lived n rounds).countP Event.isClosing = 0 := by
  induction rounds with
  | zero => rfl
  | succ rounds ih => simp [lived, ih, Event.isClosing]

/-! ## One client at the end -/

/-- What has become of a client whose attempt was made. -/
inductive Gone (o : ClientOptions) (n : Nat) (conn : Connection) : List Event → Prop
  | closed (rounds : Nat) : conn.fate = .shutdown →
      Gone o n conn (.closed n :: lived n rounds)
  | failed (rounds : Nat) (e : ClientError) : conn.fate = .dropped →
      Gone o n conn (.roundEnded n (some e) :: .roundStarted n :: lived n rounds)
  | declined {e : ClientError} : Client.Declined o conn e →
      Gone o n conn [.resolved n (some e), .attempt n]

/-- The books of a run that is over. -/
structure Settled (o : ClientOptions) (a : Account) (w : World) : Prop where
  ledger : Ledger o a w
  held : a.held = []
  noBatch : w.NoBatch
  workers : w.workers = []

namespace Settled

variable {o : ClientOptions} {a : Account} {w : World} {n : Nat} {conn : Connection}

theorem view (h : Settled o a w) (n : Nat) : w.view a.held n =
    ⟨w.network.connections[n]?, fiber Event.client n w.events, [], [], []⟩ := by
  simp [World.view, h.held, h.workers, h.noBatch.dials, h.noBatch.connected]

/-- **One client at the end.** -/
theorem gone (h : Settled o a w) (hn : w.network.connections[n]? = some conn) :
    Gone o n conn (fiber Event.client n w.events) := by
  have hs := h.ledger.custody n
  rw [h.view n, hn] at hs
  generalize fiber Event.client n w.events = es at hs
  cases hs with
  | declined hd => exact .declined hd
  | past ho =>
    cases ho with
    | closed rounds hf => exact .closed rounds hf
    | failed rounds e hf => exact .failed rounds e hf

theorem shutdown (h : Settled o a w) (hrounds : w.failedRounds = [])
    (hattempts : w.failedAttempts = []) (hn : w.network.connections[n]? = some conn) :
    conn.fate = .shutdown := by
  have hg := h.gone hn
  have hfailed := World.hasFailed_iff (w := w) (n := n)
  have hmem : ∀ e, e ∈ fiber Event.client n w.events → e ∈ w.events :=
    fun e he => (mem_fiber.1 he).1
  generalize fiber Event.client n w.events = es at hg hfailed hmem
  cases hg with
  | closed rounds hf => exact hf
  | failed rounds e =>
    obtain ⟨f, hf, -⟩ := hfailed.2 ⟨e, List.mem_cons_self⟩
    rw [hrounds] at hf
    cases hf
  | @declined e =>
    have he := World.mem_failedAttempts.2 ⟨_, hmem _ List.mem_cons_self⟩
    rw [hattempts] at he
    cases he

/-! ## All clients at the end -/

/-- Each connection that was shut down was closed once, and no other. -/
theorem closings (h : Settled o a w) (hn : w.network.connections[n]? = some conn) :
    w.closings n = if conn.fate = .shutdown then 1 else 0 := by
  have hg := h.gone hn
  rw [World.closings_eq]
  generalize fiber Event.client n w.events = es at hg ⊢
  cases hg with
  | closed rounds hf => simp [hf, count_lived_closed]
  | failed rounds e hf => simp [hf, count_lived_closed]
  | declined hd => cases hd <;> simp [*]

/-- **All clients at the end.** The connections shut down are those closed, and together with the
clients that failed a round they are those that connected. -/
theorem count (h : Settled o a w) :
    w.network.connections.countP (fun conn => conn.fate = .shutdown) =
        w.events.countP Event.isClosing ∧
      w.events.countP Event.isClosing +
          (List.range w.network.connections.length).countP (fun n => w.HasFailed n) =
        w.events.countP Event.isJoin := by
  have hlt : ∀ e ∈ w.events, e.client < w.network.connections.length := by
    intro e he
    exact h.ledger.custody.client_lt he
  rw [countP_eq_sum_getElem?, countP_range_eq_sum,
    countP_eq_sum_fibers Event.isClosing _ hlt, countP_eq_sum_fibers Event.isJoin _ hlt,
    ← Finset.sum_add_distrib]
  constructor <;> refine Finset.sum_congr rfl fun n hn => ?_ <;>
    obtain ⟨conn, hconn⟩ : ∃ conn, w.network.connections[n]? = some conn :=
      ⟨_, List.getElem?_eq_getElem (Finset.mem_range.1 hn)⟩ <;>
    have hg := h.gone hconn
  · rw [hconn]
    generalize fiber Event.client n w.events = es at hg ⊢
    cases hg with
    | closed rounds hf => simp [hf, List.countP_cons, countP_lived_isClosing, Event.isClosing]
    | failed rounds e hf => simp [hf, countP_lived_isClosing, Event.isClosing]
    | declined hd => cases hd <;> simp [Event.isClosing, *]
  · have hfailed := World.hasFailed_iff (w := w) (n := n)
    generalize fiber Event.client n w.events = es at hg hfailed ⊢
    cases hg with
    | closed rounds hf =>
      have hno : ¬ w.HasFailed n := by simp [hfailed, not_mem_lived_failed]
      simp [hno, List.countP_cons, countP_lived_isClosing, countP_lived_isJoin, Event.isClosing,
        Event.isJoin]
    | failed rounds e hf =>
      have hyes : w.HasFailed n := hfailed.2 ⟨e, by simp⟩
      simp [hyes, countP_lived_isClosing, countP_lived_isJoin, Event.isClosing,
        Event.isJoin]
    | declined hd =>
      have hno : ¬ w.HasFailed n := by simp [hfailed]
      simp [hno, Event.isClosing, Event.isJoin]

theorem clean (h : Settled o a w) (hc : w.HasConnected n) (hf : ¬ w.HasFailed n) :
    ∃ conn, w.network.connections[n]? = some conn ∧ conn.fate = .shutdown ∧ w.closings n = 1 := by
  have hlt : n < w.network.connections.length := h.ledger.custody.client_lt hc
  have hn := List.getElem?_eq_getElem hlt
  have hg := h.gone hn
  rw [World.hasConnected_iff] at hc
  rw [World.hasFailed_iff] at hf
  have hs : w.network.connections[n].fate = .shutdown := by
    generalize fiber Event.client n w.events = es at hg hc hf
    cases hg with
    | closed rounds hs => exact hs
    | failed rounds e => exact (hf ⟨e, by simp⟩).elim
    | declined => simp at hc
  exact ⟨_, hn, hs, by rw [h.closings hn, if_pos hs]⟩

end Settled

/-! ## Clients that were given up -/

namespace World

variable {w : World} {n : Nat}

theorem release_getElem? (clients : List Client) :
    (w.release clients).network.connections[n]? = (w.network.connections[n]?).map fun conn =>
      if n ∈ clients.filterMap Client.stream then conn.drop else conn := by
  have hdrop : ∀ conn : Connection, conn.drop.drop = conn.drop := by
    intro conn
    by_cases h : conn.fate = .open <;> simp [Connection.drop, h]
  have hfold : ∀ (streams : List Nat) (net : Network),
      (streams.foldl (fun net m => net.modify m Connection.drop) net).connections[n]? =
        (net.connections[n]?).map fun conn => if n ∈ streams then conn.drop else conn := by
    intro streams
    induction streams with
    | nil => simp
    | cons m streams ih =>
      intro net
      rw [List.foldl_cons, ih, Network.modify, List.getElem?_modify, Option.map_eq_map,
        Option.map_map]
      refine congrArg (Option.map · _) (funext fun conn => ?_)
      by_cases hm : n = m <;> by_cases hn : n ∈ streams <;> simp [hm, hn, hdrop, eq_comm (a := m)]
  exact hfold _ _

end World

/-- The books of a run that is over and has given up the clients in hand, of which it had closed
none. -/
def Abandoned (o : ClientOptions) (a : Account) (w : World) : Prop :=
  ∃ w₀, Ledger o a w₀ ∧ w₀.NoBatch ∧ w₀.workers = [] ∧ a.closed = 0 ∧ w = w₀.release a.held

theorem Abandoned.gone {o : ClientOptions} {a : Account} {w : World} {n : Nat}
    (h : Abandoned o a w) (hc : w.HasConnected n) (hf : ¬ w.HasFailed n) :
    ∃ conn, w.network.connections[n]? = some conn ∧ conn.fate = .dropped ∧ w.closings n = 0 := by
  obtain ⟨w₀, hl, hq, hw, hclosed, rfl⟩ := h
  have hclosings : ∀ e ∈ w₀.events, e.isClosing = false := by
    have hz := hl.closed
    rw [hclosed, List.countP_eq_zero] at hz
    simpa using hz
  have hnone : w₀.events.count (.closed n) = 0 :=
    List.count_eq_zero.2 fun hm => by simpa [Event.isClosing] using hclosings _ hm
  have hs := hl.custody n
  have hev : ∀ e ∈ fiber Event.client n w₀.events, e.isClosing = false :=
    fun e he => hclosings e (mem_fiber.1 he).1
  have hc : .resolved n none ∈ fiber Event.client n w₀.events := World.hasConnected_iff.1 hc
  have hf : ¬ ∃ e, .roundEnded n (some e) ∈ fiber Event.client n w₀.events :=
    fun h => hf (World.hasFailed_iff.2 h)
  have hview : w₀.view a.held n =
      ⟨w₀.network.connections[n]?, fiber Event.client n w₀.events, [], [],
        fiber Client.id n a.held⟩ := by
    simp [World.view, hw, hq.dials, hq.connected]
  rw [hview] at hs
  rw [World.release_getElem?]
  generalize hes : fiber Event.client n w₀.events = es at hs hc hf hev
  generalize hcs : fiber Client.id n a.held = cs at hs
  cases hconn : w₀.network.connections[n]? with
  | none =>
    rw [hconn] at hs
    cases hs
    cases hc
  | some conn =>
    rw [hconn] at hs
    cases hs with
    | declined => simp at hc
    | past ho =>
      cases ho with
      | closed => simpa [Event.isClosing] using hev _ List.mem_cons_self
      | failed rounds e => exact (hf ⟨e, by simp⟩).elim
    | @held _ _ c hr =>
      cases hr with
      | failed rounds e => exact (hf ⟨e, by simp⟩).elim
      | clean rounds hh =>
        obtain ⟨hmem, rfl⟩ := mem_fiber.1 (hcs ▸ List.mem_singleton_self c)
        have hs : c.id ∈ a.held.filterMap Client.stream :=
          List.mem_filterMap.2 ⟨c, hmem, hh.stream⟩
        exact ⟨conn.drop, by simp [hs], by simp [Connection.drop, hh.fate], hnone⟩

end EchoLoad
